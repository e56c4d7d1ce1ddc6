import PrimeAgent.Session.Timestamp

/-! # The body of a response as text

Each chunk of the body is read as characters by itself, so that a character which the chunks cut is lost.
-/
namespace PrimeAgent.Provider

variable {ε : Type}

/-- What a read of the body gives: the next chunk, or the error of the connection or of the signal. -/
def nextText (read : Except ε Bytes) : Except ε Text :=
  read.map Utf8.lossy

def readAllText (out : Text) : List (Except ε Bytes) → Except ε Text
  | [] => .ok out
  | read :: reads => match nextText read with
    | .ok chunk => readAllText (out ++ chunk) reads
    | .error error => .error error

theorem readAllText_chunks (chunks : List Bytes) (out : Text) :
    readAllText out (chunks.map .ok : List (Except ε Bytes)) = .ok (out ++ chunks.flatMap Utf8.lossy) := by
  induction chunks generalizing out with
  | nil => rw [List.flatMap_nil, List.append_nil]; rfl
  | cons chunk chunks ih => rw [List.flatMap_cons, ← List.append_assoc]; exact ih _

theorem read_all_text_exact_iff {chunks : List Bytes} {text : Text} (hBody : chunks.flatten = Utf8.encode text) :
    readAllText [] (chunks.map .ok : List (Except ε Bytes)) = .ok text ↔
      ∀ chunk ∈ chunks, ∃ part, chunk = Utf8.encode part := by
  rw [readAllText_chunks, List.nil_append, Except.ok.injEq]
  exact Utf8.lossy_pieces_iff hBody

theorem cut_character_lost :
    readAllText [] ([[0xC3], [0xA9]].map .ok : List (Except Unit Bytes)) = .ok [Utf8.replacement, Utf8.replacement] ∧
      (readAllText [] ([[0xC3], [0xA9]].map .ok : List (Except Unit Bytes)) = .ok ['é'] ↔
        ∀ chunk ∈ ([[0xC3], [0xA9]] : List Bytes), ∃ part, chunk = Utf8.encode part) :=
  ⟨rfl, read_all_text_exact_iff (by decide)⟩

end PrimeAgent.Provider

import PrimeAgent.SequenceGuard.Guard

/-! # Streams of sequences

A byte stream made of whole escape sequences, its bytes arriving one event at a time, gives what the
sequences stand for and nothing else. A sequence that is broken off by the next one takes bytes of it.
-/
namespace PrimeAgent.SequenceGuard

/-- An escape sequence by its family. The text of a string sequence is given by the events that carry it. -/
inductive Sequence where
  | csi (params : List UInt8) (final : UInt8)
  | sgr (cb x y : List UInt8) (press : Bool)
  | x10 (cb x y : UInt8)
  | ss3 (fin : UInt8)
  | osc (text : List (List UInt8)) (bel : Bool)
  | dcs (text : List (List UInt8))
  | apc (text : List (List UInt8))

namespace Sequence

def singles (bytes : List UInt8) : List (List UInt8) :=
  bytes.map fun byte => [byte]

def terminator : List (List UInt8) :=
  [[ESC], [0x5c]]

def units : Sequence → List (List UInt8)
  | csi params final => [ESC] :: [0x5b] :: (singles params ++ [[final]])
  | sgr cb x y press =>
    [ESC] :: [0x5b] :: [0x3c] :: (singles (cb ++ 0x3b :: (x ++ 0x3b :: y)) ++ [[if press then 0x4d else 0x6d]])
  | x10 cb x y => [[ESC], [0x5b], [0x4d], [cb], [x], [y]]
  | ss3 fin => [[ESC], [0x4f], [fin]]
  | osc text bel => [ESC] :: [0x5d] :: (text ++ if bel then [[0x07]] else terminator)
  | dcs text => [ESC] :: [0x50] :: (text ++ terminator)
  | apc text => [ESC] :: [0x5f] :: (text ++ terminator)

def IsNumber (digits : List UInt8) : Prop :=
  digits ≠ [] ∧ digits.all isDigit

def isParam (byte : UInt8) : Bool :=
  0x20 ≤ byte && byte ≤ 0x3f

def Wf : Sequence → Prop
  | csi params final => params.all isParam ∧ isFinal final
  | sgr cb x y _ => IsNumber cb ∧ IsNumber x ∧ IsNumber y
  | x10 cb x y => 0x20 ≤ cb ∧ 0x20 ≤ x ∧ 0x20 ≤ y
  | ss3 fin => isFinal fin
  | osc text _ => ESC ∉ text.flatten ∧ 0x07 ∉ text.flatten
  | dcs text | apc text => ESC ∉ text.flatten

def Clear : Sequence → Prop
  | csi params final => params.head? ≠ some 0x3c ∧ (params = [] → final ≠ 0x4d)
  | _ => True

def deliver : Sequence → List GuardOutput
  | csi params final =>
    if final = 0x4d then rxvtReport (fieldsOf params)
    else ((csiKey (params ++ [final])).map GuardOutput.event).toList
  | sgr cb x y press => sgrReport cb x y press
  | x10 cb x y => x10Report cb x y
  | ss3 fin => ((ss3Key fin).map GuardOutput.event).toList
  | _ => []

end Sequence

open Sequence

def Grows (assembled : List UInt8) : List (List UInt8) → Prop
  | [] => True
  | unit :: rest => isCompleteSequence (assembled ++ unit) = some false ∧ Grows (assembled ++ unit) rest

theorem Grows.append {assembled : List UInt8} {units more : List (List UInt8)} :
    Grows assembled (units ++ more) ↔ Grows assembled units ∧ Grows (assembled ++ units.flatten) more := by
  induction units generalizing assembled with
  | nil => simp [Grows]
  | cons unit rest ih =>
    simp only [List.cons_append, Grows, ih, List.flatten_cons, List.append_assoc]
    exact and_assoc.symm

/-- A sequence that is whole with its last unit and not before, and what it is classified as. -/
structure Completes (sequence : Sequence) (middle : List (List UInt8)) (last : List UInt8) : Prop where
  units : sequence.units = [ESC] :: (middle ++ [last])
  grows : Grows [ESC] middle
  complete : isCompleteSequence ([ESC] ++ middle.flatten ++ last) = some true
  classified : ∀ first, classify ([ESC] ++ middle.flatten ++ last) first = some sequence.deliver

theorem flatten_singles (bytes : List UInt8) : (singles bytes).flatten = bytes := by
  induction bytes with
  | nil => rfl
  | cons byte bytes ih => rw [singles, List.map_cons, List.flatten_cons, ← singles, ih, List.singleton_append]

/-! ### Control sequences -/

variable {body : List UInt8} {byte : UInt8} {params : List UInt8} {final : UInt8} {cb x y : List UInt8}

theorem csi_unfinished (hBody : ∀ byte ∈ body, isFinal byte = false) :
    isCompleteSequence (ESC :: 0x5b :: body) = some false := by
  have hHead : body.head? ≠ some 0x4d := by
    intro hHead
    exact absurd (hBody _ (List.mem_of_head? hHead)) (by decide)
  rw [isCompleteSequence_csi hHead, isCompleteCsi]
  cases body with
  | nil => rfl
  | cons first rest =>
    rw [if_neg (by simp)]
    simp only [List.drop_succ_cons, List.drop_zero, List.head?_cons]
    cases hLast : (first :: rest).getLast? with
    | none => simp at hLast
    | some last =>
      have hNot : isFinal last = false := hBody last (List.mem_of_getLast? hLast)
      simp [hNot]

theorem csi_grows (hBody : ∀ byte ∈ body, isFinal byte = false) {more : List UInt8}
    (hMore : ∀ byte ∈ more, isFinal byte = false) : Grows (ESC :: 0x5b :: body) (singles more) := by
  induction more generalizing body with
  | nil => trivial
  | cons byte more ih =>
    obtain ⟨hByte, hRest⟩ := List.forall_mem_cons.mp hMore
    have hGrown : ∀ other ∈ body ++ [byte], isFinal other = false :=
      List.forall_mem_append.mpr ⟨hBody, by simpa using hByte⟩
    exact ⟨csi_unfinished hGrown, ih hGrown hRest⟩

theorem not_final_of_param (hParam : isParam byte) : isFinal byte = false := by
  simp only [isParam, Bool.and_eq_true, decide_eq_true_eq, UInt8.le_iff_toNat_le] at hParam
  simp only [isFinal, Bool.and_eq_false_iff, decide_eq_false_iff_not, UInt8.le_iff_toNat_le]
  have hBound : (0x3f : UInt8).toNat = 0x3f := rfl
  have hFirst : (0x40 : UInt8).toNat = 0x40 := rfl
  omega

theorem param_of_digit (hDigit : isDigit byte) : isParam byte := by
  simp only [isDigit, Bool.and_eq_true, decide_eq_true_eq, UInt8.le_iff_toNat_le] at hDigit
  simp only [isParam, Bool.and_eq_true, decide_eq_true_eq, UInt8.le_iff_toNat_le]
  have hLow : (0x30 : UInt8).toNat = 0x30 := rfl
  have hHigh : (0x39 : UInt8).toNat = 0x39 := rfl
  have hFirst : (0x20 : UInt8).toNat = 0x20 := rfl
  have hLast : (0x3f : UInt8).toNat = 0x3f := rfl
  omega

theorem ascii_of_param (hParam : isParam byte) : byte.toNat < 128 := by
  simp only [isParam, Bool.and_eq_true, decide_eq_true_eq, UInt8.le_iff_toNat_le] at hParam
  have hBound : (0x3f : UInt8).toNat = 0x3f := rfl
  omega

theorem fromUtf8_ascii {bytes : List UInt8} (hAscii : ∀ byte ∈ bytes, byte.toNat < 128) : fromUtf8 bytes = some bytes := by
  have hEncode : Utf8.encode (bytes.map fun byte => Char.ofNat byte.toNat) = bytes := by
    induction bytes with
    | nil => rfl
    | cons byte bytes ih =>
      obtain ⟨hByte, hRest⟩ := List.forall_mem_cons.mp hAscii
      have hChar : (Char.ofNat byte.toNat).toNat = byte.toNat := by
        rw [Char.ofNat, dif_pos (Or.inl (by omega))]
        rfl
      rw [List.map_cons, Utf8.encode_cons, ih hRest, Utf8.encodeChar_ascii (by omega), hChar]
      simp
  have hDecode := Utf8.decode_encode (bytes.map fun byte => Char.ofNat byte.toNat)
  rw [hEncode] at hDecode
  simp [fromUtf8, hDecode]

theorem isPrefixOf_behind (head : UInt8) (rest : List UInt8) :
    [ESC, 0x5b, head].isPrefixOf (ESC :: 0x5b :: rest) = decide (rest.head? = some head) := by
  cases rest with
  | nil => rfl
  | cons first rest =>
    simp only [List.isPrefixOf, beq_self_eq_true, Bool.true_and, Bool.and_true, List.head?_cons, Option.some.injEq]
    exact Bool.eq_iff_iff.mpr (by simpa using eq_comm)

theorem head_not {final byte : UInt8} (hParams : params.head? ≠ some byte) (hFinal : params = [] → final ≠ byte) :
    (params ++ [final]).head? ≠ some byte := by
  cases params with
  | nil => simpa using hFinal rfl
  | cons head rest => simpa using hParams

theorem param_not_final (hParams : params.all isParam) (hFinal : isFinal byte) :
    params.head? ≠ some byte := by
  intro hHead
  have hParam := List.all_eq_true.mp hParams byte (List.mem_of_head? hHead)
  rw [not_final_of_param hParam] at hFinal
  cases hFinal

theorem classify_csi (hWf : (csi params final).Wf) (hClear : (csi params final).Clear) (first : Option Event) :
    classify (ESC :: 0x5b :: (params ++ [final])) first = some (csi params final).deliver := by
  have hAngle : (params ++ [final]).head? ≠ some 0x3c := by
    refine head_not hClear.1 fun _ hEq => ?_
    rw [hEq] at hWf
    exact absurd hWf.2 (by decide)
  have hX10 : (params ++ [final]).head? ≠ some 0x4d := head_not (param_not_final hWf.1 (by decide)) hClear.2
  rw [classify, isPrefixOf_behind, isPrefixOf_behind]
  simp only [hAngle, hX10, decide_false, Bool.false_eq_true, false_and, if_false, deliver]
  have hPrefix : [ESC, 0x5b].isPrefixOf (ESC :: 0x5b :: (params ++ [final])) = true := by simp [List.isPrefixOf]
  have hSuffix : [0x4d].isSuffixOf (ESC :: 0x5b :: (params ++ [final])) = decide (final = 0x4d) := by
    simp only [List.isSuffixOf, List.reverse_cons, List.reverse_append, List.reverse_nil, List.nil_append,
      List.cons_append, List.isPrefixOf, Bool.and_true]
    exact Bool.eq_iff_iff.mpr (by simpa using eq_comm)
  simp only [hPrefix, hSuffix, true_and, decide_eq_true_eq]
  split
  · have hUtf8 : fromUtf8 params = some params :=
      fromUtf8_ascii fun byte hByte => ascii_of_param (List.all_eq_true.mp hWf.1 byte hByte)
    have hBody : slice (ESC :: 0x5b :: (params ++ [final])) 2 ((ESC :: 0x5b :: (params ++ [final])).length - 1) =
        some params := by
      rw [slice_isSome (by simp) (by simp)]
      simp
    rw [decodeRxvtReport, hBody]
    simp only [Option.map_some, hUtf8]
  · rfl

theorem csi_completes (hWf : (csi params final).Wf) (hClear : (csi params final).Clear) :
    Completes (csi params final) ([0x5b] :: singles params) [final] := by
  have hNot : ∀ byte ∈ params, isFinal byte = false := fun byte hByte =>
    not_final_of_param (List.all_eq_true.mp hWf.1 byte hByte)
  have hBytes : [ESC] ++ ([0x5b] :: singles params).flatten ++ [final] = ESC :: 0x5b :: (params ++ [final]) := by
    simp [flatten_singles]
  refine ⟨rfl, ⟨csi_unfinished (by simp), csi_grows (by simp) hNot⟩, ?_, fun first => ?_⟩
  · rw [hBytes]
    have hHead : (params ++ [final]).head? ≠ some 0x4d := head_not (param_not_final hWf.1 (by decide)) hClear.2
    have hAngle : (params ++ [final]).head? ≠ some 0x3c := by
      refine head_not hClear.1 fun _ hEq => ?_
      rw [hEq] at hWf
      exact absurd hWf.2 (by decide)
    rw [isCompleteSequence_csi hHead, isCompleteCsi, if_neg (by simp)]
    simp only [List.drop_succ_cons, List.drop_zero, List.getLast?_append, List.getLast?_singleton, Option.some_or]
    cases hFirst : (params ++ [final]).head? with
    | none => simp at hFirst
    | some head =>
      have hNe : head ≠ 0x3c := fun hEq => hAngle (hEq ▸ hFirst)
      simp [hWf.2, hNe]
  · rw [hBytes]
    exact classify_csi hWf hClear first

/-! ### Mouse reports -/

def reportBody (cb x y : List UInt8) : List UInt8 :=
  cb ++ 0x3b :: (x ++ 0x3b :: y)

theorem fieldsOf_reportBody (hCb : IsNumber cb) (hX : IsNumber x) (hY : IsNumber y) :
    fieldsOf (reportBody cb x y) = [cb, x, y] := by
  have hNotMem {digits : List UInt8} (hNumber : IsNumber digits) : 0x3b ∉ digits := fun hMem =>
    absurd (List.all_eq_true.mp hNumber.2 _ hMem) (by decide)
  rw [fieldsOf, reportBody, List.splitOn_append_cons_self_of_not_mem (hNotMem hCb),
    List.splitOn_append_cons_self_of_not_mem (hNotMem hX), List.splitOn_eq_singleton (hNotMem hY)]

theorem reportBody_params (hCb : IsNumber cb) (hX : IsNumber x) (hY : IsNumber y) :
    ∀ byte ∈ reportBody cb x y, isParam byte := by
  have hDigits {digits : List UInt8} (hNumber : IsNumber digits) : ∀ byte ∈ digits, isParam byte :=
    fun byte hByte => param_of_digit (List.all_eq_true.mp hNumber.2 byte hByte)
  refine List.forall_mem_append.mpr ⟨hDigits hCb, List.forall_mem_cons.mpr ⟨by decide, ?_⟩⟩
  exact List.forall_mem_append.mpr ⟨hDigits hX, List.forall_mem_cons.mpr ⟨by decide, hDigits hY⟩⟩

theorem sgr_completes (press : Bool) (hWf : (sgr cb x y press).Wf) :
    Completes (sgr cb x y press) ([0x5b] :: singles (0x3c :: reportBody cb x y)) [if press then 0x4d else 0x6d] := by
  obtain ⟨hCb, hX, hY⟩ := hWf
  have hParams := reportBody_params hCb hX hY
  have hUtf8 : fromUtf8 (reportBody cb x y) = some (reportBody cb x y) :=
    fromUtf8_ascii fun byte hByte => ascii_of_param (hParams byte hByte)
  have hFields := fieldsOf_reportBody hCb hX hY
  generalize hBody : reportBody cb x y = body at *
  have hUnits : (sgr cb x y press).units =
      [ESC] :: ([0x5b] :: singles (0x3c :: body) ++ [[if press then 0x4d else 0x6d]]) := by
    rw [← hBody]
    rfl
  have hBytes : [ESC] ++ ([0x5b] :: singles (0x3c :: body)).flatten ++ [if press then 0x4d else 0x6d] =
      ESC :: 0x5b :: 0x3c :: (body ++ [if press then 0x4d else 0x6d]) := by
    simp [flatten_singles]
  have hFinals : ∀ byte ∈ (0x3c : UInt8) :: body, isFinal byte = false :=
    List.forall_mem_cons.mpr ⟨by decide, fun byte hByte => not_final_of_param (hParams byte hByte)⟩
  have hSome {field : List UInt8} (hNumber : IsNumber field) : (!field.isEmpty && field.all isDigit) = true := by
    rw [hNumber.2, Bool.and_true, Bool.not_eq_true', List.isEmpty_eq_false_iff]
    exact hNumber.1
  refine ⟨hUnits, ⟨csi_unfinished (by simp), csi_grows (by simp) hFinals⟩, ?_, fun first => ?_⟩
  · rw [hBytes, isCompleteSequence_csi (by simp), isCompleteCsi, if_neg (by simp)]
    have hLast : ((0x3c : UInt8) :: (body ++ [if press then 0x4d else 0x6d])).getLast? =
        some (if press then 0x4d else 0x6d) := by
      rw [← List.cons_append, List.getLast?_concat]
    have hSlice : slice ((0x3c : UInt8) :: (body ++ [if press then 0x4d else 0x6d])) 1
        (((0x3c : UInt8) :: (body ++ [if press then 0x4d else 0x6d])).length - 1) = some body := by
      rw [slice_isSome (by simp) (by simp)]
      simp
    have hSgr : isSgrMousePayload ((0x3c : UInt8) :: (body ++ [if press then 0x4d else 0x6d])) = some true := by
      rw [isSgrMousePayload, hLast]
      simp only [hSlice, Option.map_some, hUtf8, hFields, List.all_cons, List.all_nil, hSome hCb, hSome hX, hSome hY]
      cases press <;> rfl
    simp only [List.drop_succ_cons, List.drop_zero, hLast, List.head?_cons, hSgr]
    cases press <;> rfl
  · rw [hBytes, classify, isPrefixOf_behind]
    have hSlice : slice (ESC :: 0x5b :: 0x3c :: (body ++ [if press then 0x4d else 0x6d])) 3
        ((ESC :: 0x5b :: 0x3c :: (body ++ [if press then 0x4d else 0x6d])).length - 1) = some body := by
      rw [slice_isSome (by simp) (by simp)]
      simp
    have hLast : (ESC :: 0x5b :: 0x3c :: (body ++ [if press then 0x4d else 0x6d])).getLast? =
        some (if press then 0x4d else 0x6d) := by
      rw [← List.cons_append, ← List.cons_append, ← List.cons_append, List.getLast?_concat]
    simp only [List.head?_cons, decide_true, if_true, decodeSgrReport, hSlice, Option.bind_some, hUtf8, hFields, hLast]
    cases press <;> rfl

theorem x10_completes {cb x y : UInt8} : Completes (x10 cb x y) [[0x5b], [0x4d], [cb], [x]] [y] := by
  refine ⟨rfl, ⟨rfl, rfl, rfl, rfl, trivial⟩, rfl, fun first => rfl⟩

/-! ### The other families -/

theorem ss3_completes (fin : UInt8) : Completes (ss3 fin) [[0x4f]] [fin] := by
  refine ⟨rfl, ⟨rfl, trivial⟩, rfl, fun first => ?_⟩
  simp [classify, classifyKey, isOpener, deliver, ESC]

def opens (opener : UInt8) (bel : Bool) : Prop :=
  (opener = 0x5d ∧ bel = true) ∨ ((opener = 0x50 ∨ opener = 0x5f) ∧ bel = false)

def Plain (bel : Bool) (text : List UInt8) : Prop :=
  ESC ∉ text ∧ (bel = true → 0x07 ∉ text)

section

variable {opener : UInt8} {bel : Bool} {text : List UInt8}

theorem opens.complete (hOpens : opens opener bel) (rest : List UInt8) :
    isCompleteSequence (ESC :: opener :: rest) = some (endsWithTerminator (opener :: rest) bel) := by
  obtain ⟨rfl, rfl⟩ | ⟨rfl | rfl, rfl⟩ := hOpens <;> rfl

theorem opens.plain (hOpens : opens opener bel) (hText : Plain bel text) :
    Plain bel (opener :: text) := by
  have hNot : opener ≠ ESC ∧ opener ≠ 0x07 := by
    obtain ⟨rfl, rfl⟩ | ⟨rfl | rfl, rfl⟩ := hOpens <;> decide
  constructor
  · exact fun hMem => (List.mem_cons.mp hMem).elim (fun hEq => hNot.1 hEq.symm) hText.1
  · exact fun hBel hMem => (List.mem_cons.mp hMem).elim (fun hEq => hNot.2 hEq.symm) (hText.2 hBel)

theorem endsWithTerminator_plain (hText : Plain bel text) : endsWithTerminator text bel = false := by
  rw [endsWithTerminator, Bool.or_eq_false_iff, Bool.and_eq_false_iff]
  constructor
  · rw [Bool.eq_false_iff]
    intro hSuffix
    exact hText.1 ((List.isSuffixOf_iff_suffix.mp hSuffix).subset List.mem_cons_self)
  · cases bel with
    | false => exact .inl rfl
    | true =>
      refine .inr (Bool.eq_false_iff.mpr fun hSuffix => ?_)
      exact hText.2 rfl ((List.isSuffixOf_iff_suffix.mp hSuffix).subset List.mem_cons_self)

theorem endsWithTerminator_escape (text : List UInt8) : endsWithTerminator (text ++ [ESC]) bel = false := by
  rw [endsWithTerminator]
  cases bel <;> simp [List.isSuffixOf, List.isPrefixOf, ESC]

theorem string_grows (hOpens : opens opener bel) {units : List (List UInt8)}
    (hPlain : Plain bel (text ++ units.flatten)) : Grows (ESC :: opener :: text) units := by
  induction units generalizing text with
  | nil => trivial
  | cons unit units ih =>
    rw [List.flatten_cons, ← List.append_assoc] at hPlain
    have hUnit : Plain bel (text ++ unit) :=
      ⟨fun hMem => hPlain.1 (List.mem_append_left _ hMem), fun hBel hMem => hPlain.2 hBel (List.mem_append_left _ hMem)⟩
    refine ⟨?_, ih hPlain⟩
    rw [List.cons_append, List.cons_append, hOpens.complete, endsWithTerminator_plain (hOpens.plain hUnit)]

theorem classify_string (hOpens : opens opener bel) (rest : List UInt8) (first : Option Event) :
    classify (ESC :: opener :: rest) first = some [] := by
  obtain ⟨rfl, rfl⟩ | ⟨rfl | rfl, rfl⟩ := hOpens <;>
    simp [classify, classifyKey, isOpener, List.isPrefixOf, ESC]

theorem string_completes (hOpens : opens opener bel) {text : List (List UInt8)} (hPlain : Plain bel text.flatten)
    {sequence : Sequence} (hUnits : sequence.units = [ESC] :: [opener] :: (text ++ terminator)) (hDeliver : sequence.deliver = []) :
    Completes sequence ([opener] :: (text ++ [[ESC]])) [0x5c] := by
  have hGrows : Grows (ESC :: opener :: []) (text ++ [[ESC]]) := by
    refine Grows.append.mpr ⟨string_grows hOpens hPlain, ?_, trivial⟩
    have hBytes : ESC :: opener :: [] ++ text.flatten ++ [ESC] = ESC :: opener :: (text.flatten ++ [ESC]) := by simp
    rw [hBytes, hOpens.complete, ← List.cons_append, endsWithTerminator_escape]
  have hBytes : [ESC] ++ ([opener] :: (text ++ [[ESC]])).flatten ++ [0x5c] =
      ESC :: opener :: (text.flatten ++ [ESC, 0x5c]) := by
    simp
  refine ⟨?_, ⟨?_, hGrows⟩, ?_, fun first => ?_⟩
  · rw [hUnits]
    simp [terminator]
  · rw [List.singleton_append, hOpens.complete, endsWithTerminator_plain (hOpens.plain ⟨by simp, by simp⟩)]
  · rw [hBytes, hOpens.complete, endsWithTerminator, ← List.cons_append,
      List.isSuffixOf_iff_suffix.mpr (List.suffix_append _ _), Bool.true_or]
  · rw [hBytes, classify_string hOpens, hDeliver]

end

theorem osc_bel_completes {text : List (List UInt8)} (hWf : (osc text true).Wf) :
    Completes (osc text true) ([0x5d] :: text) [0x07] := by
  have hOpens : opens 0x5d true := .inl ⟨rfl, rfl⟩
  have hPlain : Plain true text.flatten := ⟨hWf.1, fun _ => hWf.2⟩
  have hBytes : [ESC] ++ ([0x5d] :: text).flatten ++ [0x07] = ESC :: 0x5d :: (text.flatten ++ [0x07]) := by simp
  refine ⟨rfl, ⟨rfl, string_grows hOpens hPlain⟩, ?_, fun first => ?_⟩
  · rw [hBytes, hOpens.complete, endsWithTerminator, ← List.cons_append, Bool.true_and,
      List.isSuffixOf_iff_suffix.mpr (List.suffix_append _ [0x07]), Bool.or_true]
  · rw [hBytes, classify_string hOpens]
    rfl

theorem completes {sequence : Sequence} (hWf : sequence.Wf) (hClear : sequence.Clear) :
    ∃ middle last, Completes sequence middle last := by
  cases sequence with
  | csi params final => exact ⟨_, _, csi_completes hWf hClear⟩
  | sgr cb x y press => exact ⟨_, _, sgr_completes press hWf⟩
  | x10 cb x y => exact ⟨_, _, x10_completes⟩
  | ss3 fin => exact ⟨_, _, ss3_completes fin⟩
  | osc text bel =>
    cases bel with
    | true => exact ⟨_, _, osc_bel_completes hWf⟩
    | false => exact ⟨_, _, string_completes (.inl ⟨rfl, rfl⟩) ⟨hWf.1, fun _ => hWf.2⟩ rfl rfl⟩
  | dcs text => exact ⟨_, _, string_completes (.inr ⟨.inl rfl, rfl⟩) ⟨hWf, nofun⟩ rfl rfl⟩
  | apc text => exact ⟨_, _, string_completes (.inr ⟨.inr rfl, rfl⟩) ⟨hWf, nofun⟩ rfl rfl⟩

end PrimeAgent.SequenceGuard

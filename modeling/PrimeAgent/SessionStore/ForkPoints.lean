import PrimeAgent.SessionStore.Tree

/-! # The messages a session can be forked from

`user_messages_for_forking` lists the user messages with their text, and finds the row of each again by the value of its
message.
-/
namespace PrimeAgent.SessionStore

/-! ## Equal values -/

def plainNumber : JsonNumber → JsonNumber
  | .float value => .float (if value.bits = 0x8000000000000000 then ⟨0⟩ else value)
  | n => n

mutual

def plain : Json → Json
  | .null => .null
  | .bool value => .bool value
  | .number n => .number (plainNumber n)
  | .string value => .string value
  | .array items => .array (plainItems items)
  | .object members => .object ((plainMembers members).mergeSort fun a b => decide (a.1 ≤ b.1))

def plainItems : List Json → List Json
  | [] => []
  | item :: items => plain item :: plainItems items

def plainMembers : List (String × Json) → List (String × Json)
  | [] => []
  | (key, value) :: members => (key, plain value) :: plainMembers members

end

/-- `==` of two values, which does not look at the order of the keys. -/
def sameValue (a b : Json) : Bool :=
  decide (plain a = plain b)

theorem sameValue_refl (a : Json) : sameValue a a = true :=
  decide_eq_true rfl

/-! ## The list -/

def messageRole (message : Json) : Option String :=
  (message.get "role").bind Json.asStr

def messageText (message : Json) : String :=
  match message.get "content" with
  | some (.string text) => text
  | some (.array blocks) =>
    String.join ((blocks.filter fun block => (block.get "type").bind Json.asStr == some "text").filterMap
      fun block => (block.get "text").bind Json.asStr)
  | _ => ""

def carries (message : Json) (entry : SessionEntry) : Bool :=
  (entry.fields.get "message").any (sameValue message)

def entryIdOf (entries : List SessionEntry) (message : Json) : String :=
  ((entries.find? (carries message)).map (·.id)).getD ""

def forkPoint (id text : String) : Json :=
  .object [("entryId", .string id), ("text", .string text)]

def userMessagesForForking (file : SessionFile) : List Json :=
  (((file.entries.filter fun entry => entry.type == "message").filterMap fun entry => entry.fields.get "message").filter
    fun message => messageRole message == some "user").filterMap fun message =>
      if messageText message = "" then none
      else some (forkPoint (entryIdOf file.entries message) (messageText message))

/-! ## The rows that are listed -/

def forkMessage (entry : SessionEntry) : Option Json :=
  if entry.type = "message" then
    (entry.fields.get "message").filter fun message =>
      messageRole message == some "user" && decide (messageText message ≠ "")
  else none

def ownForkPoints (file : SessionFile) : List Json :=
  file.entries.filterMap fun entry => (forkMessage entry).map fun message => forkPoint entry.id (messageText message)

theorem forkMessage_eq (entry : SessionEntry) {β : Type} (answer : Json → String → β) :
    (if entry.type == "message" then
      ((entry.fields.get "message").filter fun message => messageRole message == some "user").bind fun message =>
        if messageText message = "" then none else some (answer message (messageText message))
      else none) =
      (forkMessage entry).map fun message => answer message (messageText message) := by
  unfold forkMessage
  by_cases hType : entry.type = "message"
  · rw [if_pos hType, if_pos (beq_iff_eq.mpr hType)]
    cases entry.fields.get "message" with
    | none => rfl
    | some message =>
      by_cases hRole : messageRole message = some "user"
      · by_cases hText : messageText message = ""
        · simp [Option.filter, hRole, hText]
        · simp [Option.filter, hRole, hText]
      · simp [Option.filter, hRole]
  · rw [if_neg hType, if_neg (by simpa using hType)]
    rfl

theorem userMessagesForForking_eq (file : SessionFile) : userMessagesForForking file =
    file.entries.filterMap fun entry => (forkMessage entry).map fun message =>
      forkPoint (entryIdOf file.entries message) (messageText message) := by
  rw [userMessagesForForking, List.filter_filterMap, List.filterMap_filterMap, List.filterMap_filter]
  simp only [forkMessage_eq _ fun message text => forkPoint (entryIdOf file.entries message) text]

theorem filterMap_eq_filterMap_iff {α β : Type} {f g : α → Option β} (hSome : ∀ a, (f a).isSome = (g a).isSome)
    (items : List α) : items.filterMap f = items.filterMap g ↔ ∀ a ∈ items, f a = g a := by
  induction items with
  | nil => simp
  | cons a items ih =>
    have hBoth := hSome a
    rw [List.forall_mem_cons, ← ih]
    cases hLeft : f a with
    | none =>
      rw [hLeft] at hBoth
      have hRight : g a = none := Option.not_isSome_iff_eq_none.mp (by rw [← hBoth]; exact Bool.false_ne_true)
      rw [List.filterMap_cons_none hLeft, List.filterMap_cons_none hRight, hRight]
      exact ⟨fun hRest => ⟨rfl, hRest⟩, And.right⟩
    | some b =>
      rw [hLeft] at hBoth
      obtain ⟨b', hRight⟩ := Option.isSome_iff_exists.mp hBoth.symm
      rw [List.filterMap_cons_some hLeft, List.filterMap_cons_some hRight, hRight, List.cons.injEq, Option.some.injEq]

theorem forkMessage_carried {entry : SessionEntry} {message : Json} (hMessage : forkMessage entry = some message) :
    carries message entry = true := by
  unfold forkMessage at hMessage
  split at hMessage
  · obtain ⟨hGet, -⟩ := Option.filter_eq_some_iff.mp hMessage
    rw [carries, hGet, Option.any_some]
    exact sameValue_refl message
  · cases hMessage

theorem entryIdOf_listed {before after : List SessionEntry} {entry : SessionEntry} {message : Json}
    (hMessage : forkMessage entry = some message) : entryIdOf (before ++ entry :: after) message =
      ((before.find? (carries message)).getD entry).id := by
  rw [entryIdOf, List.find?_append, List.find?_cons_of_pos (forkMessage_carried hMessage)]
  cases before.find? (carries message) <;> rfl

theorem forkPoint_inj {id id' text : String} (hPoint : forkPoint id text = forkPoint id' text) : id = id' := by
  simpa [forkPoint] using hPoint

/-- Where a message stands in an earlier row too, the first row that carries it has the id of the listed one. -/
def FirstsOwn (entries : List SessionEntry) : Prop :=
  ∀ before entry after message, entries = before ++ entry :: after → forkMessage entry = some message →
    ∀ first, before.find? (carries message) = some first → first.id = entry.id

/-- Every listed message comes with the id of its row exactly where no earlier row of another id carries an equal one. -/
theorem userMessagesForForking_own_iff (file : SessionFile) :
    userMessagesForForking file = ownForkPoints file ↔ FirstsOwn file.entries := by
  rw [userMessagesForForking_eq, ownForkPoints,
    filterMap_eq_filterMap_iff (fun entry => by rw [Option.isSome_map, Option.isSome_map])]
  constructor
  · intro hSame before entry after message hEntries hMessage first hFirst
    have hPoint := hSame entry (by rw [hEntries]; exact List.mem_append_right _ List.mem_cons_self)
    rw [hMessage, Option.map_some, Option.map_some, hEntries, entryIdOf_listed hMessage, hFirst] at hPoint
    exact forkPoint_inj (Option.some.inj hPoint)
  · intro hFirsts entry hMem
    cases hMessage : forkMessage entry with
    | none => rfl
    | some message =>
      obtain ⟨before, after, hEntries⟩ := List.append_of_mem hMem
      rw [Option.map_some, Option.map_some, hEntries, entryIdOf_listed hMessage]
      cases hFirst : before.find? (carries message) with
      | none => rfl
      | some first => rw [Option.getD_some, hFirsts before entry after message hEntries hMessage first hFirst]

/-! ### A message that was sent twice -/

def promptRow (id : String) : SessionEntry where
  type := "message"
  id := id
  parentId := none
  timestamp := "2024-01-01T00:00:00.000Z"
  fields := .object [("message", .object [("role", .string "user"), ("content", .string "again"),
    ("timestamp", .number (.posInt 1))])]

def repeated : SessionFile :=
  { SessionFile.empty "" ⟨some 3, "s", "2024-01-01T00:00:00.000Z", "/", none, none, none⟩ with
    entries := [promptRow "a", promptRow "b"] }

theorem userMessagesForForking_repeated : userMessagesForForking repeated = [forkPoint "a" "again", forkPoint "a" "again"] ∧
    ownForkPoints repeated = [forkPoint "a" "again", forkPoint "b" "again"] := by
  have hMessage (id : String) : forkMessage (promptRow id) =
      some (.object [("role", .string "user"), ("content", .string "again"), ("timestamp", .number (.posInt 1))]) := rfl
  have hText : messageText (.object [("role", .string "user"), ("content", .string "again"),
      ("timestamp", .number (.posInt 1))]) = "again" := rfl
  constructor
  · have hFirst := @entryIdOf_listed [] [promptRow "b"] _ _ (hMessage "a")
    rw [userMessagesForForking_eq]
    simp only [repeated, List.filterMap_cons, List.filterMap_nil, hMessage, Option.map_some, hText]
    rw [List.nil_append] at hFirst
    rw [hFirst]
    rfl
  · simp only [repeated, ownForkPoints, List.filterMap_cons, List.filterMap_nil, hMessage, Option.map_some, hText]
    rfl

end PrimeAgent.SessionStore

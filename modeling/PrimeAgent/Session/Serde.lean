import Mathlib.Data.List.Nodup
import PrimeAgent.Types.Decode
import PrimeAgent.Session.Timestamp

/-! # The JSON text layer

`serde_json` between texts and values. What it does with a value is modelled in full; the texts it
reads and writes are a parameter.
-/
namespace PrimeAgent

structure Serde where
  /-- `serde_json::from_str::<Value>`. -/
  value : Text → Option Json
  /-- `serde_json::to_string(&FileEntry)`. -/
  writeEntry : FileEntry → Text
  /-- `serde_json::to_string(&JsonMap)`. -/
  writeMap : JsonMap → Text

/-- `serde_json::from_str::<FileEntry>`. -/
def Serde.entry (serde : Serde) (line : Text) : Option FileEntry :=
  (serde.value line).bind FileEntry.ofValue

structure Serde.Keeps (serde : Serde) (row : FileEntry) : Prop where
  reads : serde.entry (serde.writeEntry row) = some row
  oneLine : '\n' ∉ serde.writeEntry row
  object : ∃ body, serde.writeEntry row = '{' :: body ++ ['}']

def writeLine (serde : Serde) (entry : FileEntry) : Text :=
  serde.writeEntry entry ++ ['\n']

structure Line where
  row : FileEntry
  text : String
  value : Json

def tableSerde (table : List Line) : Serde where
  value text := (table.find? (·.text.toList == text)).map (·.value)
  writeEntry row := ((table.find? (·.row == row)).map (·.text.toList)).getD []
  writeMap _ := []

def isObjectLine (text : Text) : Bool :=
  !text.contains '\n' && text.head? == some '{' && text.tail.getLast? == some '}'

theorem isObjectLine_ofList {chars : List Char} (h : isObjectLine chars = true) :
    isObjectLine (String.ofList chars).toList = true := by
  rwa [String.toList_ofList]

theorem ofList_ne {chars chars' : List Char} (h : chars ≠ chars') : String.ofList chars ≠ String.ofList chars' :=
  fun hSame => h (String.ofList_injective hSame)

theorem exists_object {text : Text} (h : isObjectLine text = true) :
    '\n' ∉ text ∧ ∃ body, text = '{' :: body ++ ['}'] := by
  simp only [isObjectLine, Bool.and_eq_true, Bool.not_eq_true', beq_iff_eq] at h
  obtain ⟨⟨hLine, hHead⟩, hLast⟩ := h
  obtain ⟨body, hBody⟩ := List.getLast?_eq_some_iff.mp hLast
  refine ⟨by simpa using hLine, body, ?_⟩
  rw [List.cons_append, ← hBody]
  exact List.eq_cons_of_mem_head? hHead

theorem find?_eq_of_nodup {α β : Type} [BEq β] [LawfulBEq β] {key : α → β} {table : List α}
    (hKeys : (table.map key).Nodup) {line : α} (hLine : line ∈ table) :
    table.find? (key · == key line) = some line := by
  induction table with
  | nil => cases hLine
  | cons first rest ih =>
    obtain ⟨hFirst, hRest⟩ := List.nodup_cons.mp hKeys
    rcases List.mem_cons.mp hLine with rfl | hLine
    · exact List.find?_cons_of_pos (beq_self_eq_true _)
    · rw [List.find?_cons_of_neg, ih hRest hLine]
      intro hSame
      exact hFirst (beq_iff_eq.mp hSame ▸ List.mem_map_of_mem hLine)

theorem tableSerde_keeps {table : List Line} (hRows : (table.map (·.row)).Nodup)
    (hTexts : (table.map (·.text)).Nodup) (hObjects : ∀ line ∈ table, isObjectLine line.text.toList = true)
    (hReads : ∀ line ∈ table, FileEntry.ofValue line.value = some line.row) :
    ∀ row ∈ table.map (·.row), (tableSerde table).Keeps row := by
  intro row hRow
  obtain ⟨line, hLine, rfl⟩ := List.mem_map.mp hRow
  have hTexts : (table.map (·.text.toList)).Nodup := by
    rw [show (fun line : Line => line.text.toList) = String.toList ∘ Line.text from rfl, ← List.map_map]
    exact hTexts.map fun _ _ hSame => String.toList_injective hSame
  have hText : (tableSerde table).writeEntry line.row = line.text.toList := by
    simp only [tableSerde, find?_eq_of_nodup hRows hLine, Option.map_some, Option.getD_some]
  obtain ⟨hOneLine, hObject⟩ := exists_object (hObjects line hLine)
  refine ⟨?_, by rwa [hText], by rwa [hText]⟩
  rw [hText, Serde.entry]
  simp only [tableSerde, find?_eq_of_nodup hTexts hLine, Option.map_some, Option.bind_some]
  exact hReads line hLine

def headerLine : Line where
  row := .header ⟨some 3, "session", "2024-01-01T00:00:00.000Z", "/w", none, some 0, none⟩
  text := "\x7b\"type\":\"session\",\"version\":3,\"id\":\"session\",\"timestamp\":\"2024-01-01T00:00:00.000Z\",\"cwd\":\"/w\",\"rlmDepth\":0\x7d"
  value := .object [("type", .string "session"), ("version", .number (.posInt 3)), ("id", .string "session"),
    ("timestamp", .string "2024-01-01T00:00:00.000Z"), ("cwd", .string "/w"), ("rlmDepth", .number (.posInt 0))]

def userLine (id : String) (parentId : Option String) (said text : String) : Line where
  row := .message (.user ⟨.text said, 1⟩) ⟨some id, parentId, some "2024-01-01T00:00:00.000Z"⟩
  text := text
  value := .object [("type", .string "message"),
    ("message", .object [("role", .string "user"), ("content", .string said), ("timestamp", .number (.posInt 1))]),
    ("id", .string id), ("parentId", parentId.elim .null .string), ("timestamp", .string "2024-01-01T00:00:00.000Z")]

def helloLine : Line :=
  userLine "0a1b2c3d" none "hello"
    "\x7b\"type\":\"message\",\"message\":\x7b\"role\":\"user\",\"content\":\"hello\",\"timestamp\":1\x7d,\"id\":\"0a1b2c3d\",\"parentId\":null,\"timestamp\":\"2024-01-01T00:00:00.000Z\"\x7d"

def nameLine : Line where
  row := .sessionInfo ⟨some "chat"⟩ ⟨some "1b2c3d4e", some "0a1b2c3d", some "2024-01-01T00:00:00.000Z"⟩
  text := "\x7b\"type\":\"session_info\",\"name\":\"chat\",\"id\":\"1b2c3d4e\",\"parentId\":\"0a1b2c3d\",\"timestamp\":\"2024-01-01T00:00:00.000Z\"\x7d"
  value := .object [("type", .string "session_info"), ("name", .string "chat"), ("id", .string "1b2c3d4e"),
    ("parentId", .string "0a1b2c3d"), ("timestamp", .string "2024-01-01T00:00:00.000Z")]

def namedTable : List Line :=
  [headerLine, helloLine, nameLine]

set_option maxRecDepth 4000 in
theorem namedTable_objects : ∀ line ∈ namedTable, isObjectLine line.text.toList = true := by
  intro line hLine
  simp only [namedTable, List.mem_cons, List.not_mem_nil, or_false] at hLine
  rcases hLine with rfl | rfl | rfl
  · exact isObjectLine_ofList rfl
  · exact isObjectLine_ofList rfl
  · exact isObjectLine_ofList rfl

set_option maxRecDepth 4000 in
theorem headerLine_ne_helloLine : headerLine.text ≠ helloLine.text :=
  ofList_ne (by decide)

set_option maxRecDepth 4000 in
theorem namedTable_texts : (namedTable.map (·.text)).Nodup := by
  simp only [namedTable, List.map_cons, List.map_nil, List.nodup_cons, List.mem_cons, List.not_mem_nil, or_false,
    not_or, not_false_eq_true, List.nodup_nil, and_true]
  exact ⟨⟨headerLine_ne_helloLine, ofList_ne (by decide)⟩, ofList_ne (by decide)⟩

theorem namedTable_keeps : ∀ row ∈ namedTable.map (·.row), (tableSerde namedTable).Keeps row :=
  tableSerde_keeps (by decide) namedTable_texts namedTable_objects (by decide)

def answerUsage : Usage :=
  ⟨1, 1, 0, 0, 2, ⟨⟨0x3fe0000000000000⟩, ⟨0x3fe0000000000000⟩, ⟨0x3fe0000000000000⟩, ⟨0x3fe0000000000000⟩,
    ⟨0x3fe0000000000000⟩⟩⟩

def answer : AssistantMessage where
  content := []
  api := "api"
  provider := "provider"
  model := "model"
  responseModel := none
  responseId := none
  diagnostics := none
  usage := answerUsage
  stopReason := .stop
  stopReasonRaw := none
  errorMessage := none
  timestamp := 2

def answerLine : Line where
  row := .message (.assistant answer) ⟨some "1b2c3d4e", some "0a1b2c3d", some "2024-01-01T00:00:00.000Z"⟩
  text := "\x7b\"type\":\"message\",\"message\":\x7b\"role\":\"assistant\",\"content\":[],\"api\":\"api\",\"provider\":\"provider\",\"model\":\"model\",\"usage\":\x7b\"input\":1,\"output\":1,\"cacheRead\":0,\"cacheWrite\":0,\"totalTokens\":2,\"cost\":\x7b\"input\":0.5,\"output\":0.5,\"cacheRead\":0.5,\"cacheWrite\":0.5,\"total\":0.5\x7d\x7d,\"stopReason\":\"stop\",\"timestamp\":2\x7d,\"id\":\"1b2c3d4e\",\"parentId\":\"0a1b2c3d\",\"timestamp\":\"2024-01-01T00:00:00.000Z\"\x7d"
  value := .object [("type", .string "message"),
    ("message", .object [("role", .string "assistant"), ("content", .array []), ("api", .string "api"),
      ("provider", .string "provider"), ("model", .string "model"),
      ("usage", .object [("input", .number (.posInt 1)), ("output", .number (.posInt 1)),
        ("cacheRead", .number (.posInt 0)), ("cacheWrite", .number (.posInt 0)), ("totalTokens", .number (.posInt 2)),
        ("cost", .object (["input", "output", "cacheRead", "cacheWrite", "total"].map fun name =>
          (name, .number (.float ⟨0x3fe0000000000000⟩))))]),
      ("stopReason", .string "stop"), ("timestamp", .number (.posInt 2))]),
    ("id", .string "1b2c3d4e"), ("parentId", .string "0a1b2c3d"), ("timestamp", .string "2024-01-01T00:00:00.000Z")]

def moreLine : Line :=
  userLine "2c3d4e5f" (some "1b2c3d4e") "more"
    "\x7b\"type\":\"message\",\"message\":\x7b\"role\":\"user\",\"content\":\"more\",\"timestamp\":1\x7d,\"id\":\"2c3d4e5f\",\"parentId\":\"1b2c3d4e\",\"timestamp\":\"2024-01-01T00:00:00.000Z\"\x7d"

def lastLine : Line :=
  userLine "3d4e5f60" (some "2c3d4e5f") "last"
    "\x7b\"type\":\"message\",\"message\":\x7b\"role\":\"user\",\"content\":\"last\",\"timestamp\":1\x7d,\"id\":\"3d4e5f60\",\"parentId\":\"2c3d4e5f\",\"timestamp\":\"2024-01-01T00:00:00.000Z\"\x7d"

def answeredTable : List Line :=
  [headerLine, helloLine, answerLine, moreLine, lastLine]

set_option maxRecDepth 8000 in
theorem answeredTable_objects : ∀ line ∈ answeredTable, isObjectLine line.text.toList = true := by
  intro line hLine
  simp only [answeredTable, List.mem_cons, List.not_mem_nil, or_false] at hLine
  rcases hLine with rfl | rfl | rfl | rfl | rfl
  · exact namedTable_objects _ (by simp [namedTable])
  · exact namedTable_objects _ (by simp [namedTable])
  · exact isObjectLine_ofList rfl
  · exact isObjectLine_ofList rfl
  · exact isObjectLine_ofList rfl

set_option maxRecDepth 8000 in
theorem answeredTable_texts : (answeredTable.map (·.text)).Nodup := by
  simp only [answeredTable, List.map_cons, List.map_nil, List.nodup_cons, List.mem_cons, List.not_mem_nil, or_false,
    not_or, not_false_eq_true, List.nodup_nil, and_true]
  refine ⟨⟨headerLine_ne_helloLine, ?_, ?_, ?_⟩, ⟨?_, ?_, ?_⟩, ⟨?_, ?_⟩, ?_⟩ <;> exact ofList_ne (by decide)

theorem answeredTable_keeps : ∀ row ∈ answeredTable.map (·.row), (tableSerde answeredTable).Keeps row :=
  tableSerde_keeps (by decide) answeredTable_texts answeredTable_objects (by decide)

end PrimeAgent

import PrimeAgent.Session.Timestamp

/-! # Messages for a provider

`transform_messages` rewrites a history for the model that reads it: images and foreign reasoning are downgraded, call ids
renamed, failed turns dropped, and every call is answered.
-/
namespace PrimeAgent.Transform

inductive Message where
  | user (message : UserMessage)
  | assistant (message : AssistantMessage)
  | toolResult (message : ToolResultMessage)

structure Model where
  id : String
  api : String
  provider : String
  supportsImageInput : Bool

abbrev Normalizer := String → Model → AssistantMessage → Option String

def nonVisionUserImagePlaceholder : String := "(image omitted: model does not support images)"

def nonVisionToolImagePlaceholder : String := "(tool image omitted: model does not support images)"

/-- The flag is `previous_was_placeholder`. -/
def replaceImagesWithPlaceholder (placeholder : String) : Bool → List UserContentBlock → List UserContentBlock
  | _, [] => []
  | true, .image _ :: blocks => replaceImagesWithPlaceholder placeholder true blocks
  | false, .image _ :: blocks => .text ⟨placeholder, none⟩ :: replaceImagesWithPlaceholder placeholder true blocks
  | _, .text content :: blocks =>
    .text content :: replaceImagesWithPlaceholder placeholder (content.text == placeholder) blocks
  | _, .raw value :: blocks => .raw value :: replaceImagesWithPlaceholder placeholder false blocks

def downgradeUser (model : Model) (message : UserMessage) : UserMessage :=
  if model.supportsImageInput then message
  else
    match message.content with
    | .text _ => message
    | .blocks blocks =>
      { message with content := .blocks (replaceImagesWithPlaceholder nonVisionUserImagePlaceholder false blocks) }

def downgradeResult (model : Model) (message : ToolResultMessage) : ToolResultMessage :=
  if model.supportsImageInput then message
  else { message with content := replaceImagesWithPlaceholder nonVisionToolImagePlaceholder false message.content }

def downgradeUnsupportedImages (model : Model) : Message → Message
  | .user message => .user (downgradeUser model message)
  | .toolResult message => .toolResult (downgradeResult model message)
  | .assistant message => .assistant message

/-! ## Renaming -/

/-- `tool_call_id_map`. -/
abbrev IdMap := String → Option String

def IdMap.insert (map : IdMap) (id name : String) : IdMap :=
  fun other => if other = id then some name else map other

def isSameModel (model : Model) (message : AssistantMessage) : Bool :=
  message.provider == model.provider && message.api == model.api && message.model == model.id

def newName (normalize : Normalizer) (model : Model) (message : AssistantMessage) (call : ToolCall) : Option String :=
  if isSameModel model message then none
  else (normalize call.id model message).filter (· ≠ call.id)

def transformCall (normalize : Normalizer) (model : Model) (message : AssistantMessage) (call : ToolCall) : ToolCall :=
  { call with
    id := (newName normalize model message call).getD call.id
    thoughtSignature := if isSameModel model message then call.thoughtSignature else none }

def transformThinking (sameModel : Bool) (content : ThinkingContent) : List AssistantContentBlock :=
  if content.redacted.getD false then (if sameModel then [.thinking content] else [])
  else if sameModel && content.thinkingSignature.isSome then [.thinking content]
  else if trim content.thinking.toList = [] then []
  else if sameModel then [.thinking content]
  else [.text ⟨content.thinking, none⟩]

def transformBlock (normalize : Normalizer) (model : Model) (message : AssistantMessage) :
    AssistantContentBlock → List AssistantContentBlock
  | .thinking content => transformThinking (isSameModel model message) content
  | .text content => [.text content]
  | .toolCall call => [.toolCall (transformCall normalize model message call)]

def asToolCall : AssistantContentBlock → Option ToolCall
  | .toolCall call => some call
  | _ => none

def toolCalls (message : AssistantMessage) : List ToolCall :=
  message.content.filterMap asToolCall

def recordName (normalize : Normalizer) (model : Model) (message : AssistantMessage) (map : IdMap) (call : ToolCall) :
    IdMap :=
  match newName normalize model message call with
  | some name => map.insert call.id name
  | none => map

def recordNames (normalize : Normalizer) (model : Model) (message : AssistantMessage) (map : IdMap) : IdMap :=
  (toolCalls message).foldl (recordName normalize model message) map

def transformAssistant (normalize : Normalizer) (model : Model) (message : AssistantMessage) : AssistantMessage :=
  { message with content := message.content.flatMap (transformBlock normalize model message) }

def renameResult (map : IdMap) (message : ToolResultMessage) : ToolResultMessage :=
  { message with toolCallId := (map message.toolCallId).getD message.toolCallId }

def rename (normalize : Normalizer) (model : Model) : IdMap → List Message → List Message
  | _, [] => []
  | map, .user message :: messages => .user message :: rename normalize model map messages
  | map, .toolResult message :: messages =>
    .toolResult (renameResult map message) :: rename normalize model map messages
  | map, .assistant message :: messages =>
    .assistant (transformAssistant normalize model message) ::
      rename normalize model (recordNames normalize model message map) messages

/-! ## Answers -/

def syntheticToolResult (now : Nat) (call : ToolCall) : ToolResultMessage where
  toolCallId := call.id
  toolName := call.name
  content := [.text ⟨"No result provided", none⟩]
  details := none
  isError := true
  timestamp := now

def insertSyntheticToolResults (now : Nat) (pending : List ToolCall) (existing : List String) :
    List ToolResultMessage :=
  (pending.filter fun call => call.id ∉ existing).map (syntheticToolResult now)

def failed (message : AssistantMessage) : Bool :=
  message.stopReason == .error || message.stopReason == .aborted

def settle (now : Nat) : List ToolCall → List String → List Message → List Message
  | pending, existing, [] => (insertSyntheticToolResults now pending existing).map .toolResult
  | pending, existing, .assistant message :: messages =>
    (insertSyntheticToolResults now pending existing).map .toolResult ++
      if failed message then settle now [] [] messages
      else .assistant message :: settle now (toolCalls message) [] messages
  | pending, existing, .toolResult message :: messages =>
    if pending.any fun call => call.id == message.toolCallId then
      .toolResult message :: settle now pending (message.toolCallId :: existing) messages
    else settle now pending existing messages
  | pending, existing, .user message :: messages =>
    (insertSyntheticToolResults now pending existing).map .toolResult ++ .user message :: settle now [] [] messages

def transformMessages (normalize : Normalizer) (model : Model) (now : Nat) (messages : List Message) : List Message :=
  settle now [] [] (rename normalize model (fun _ => none) (messages.map (downgradeUnsupportedImages model)))

end PrimeAgent.Transform

/-! ## Turns of a transformed history

A turn is a user or assistant message with the tool results directly behind it. The transformed history has the turns that
are kept, each with its own results and the synthetic ones.
-/
namespace PrimeAgent.Transform

variable {normalize : Normalizer} {model : Model} {now : Nat} {map : IdMap}

inductive Speaker where
  | user (message : UserMessage)
  | assistant (message : AssistantMessage)

structure Turn where
  speaker : Speaker
  results : List ToolResultMessage

def Speaker.message : Speaker → Message
  | .user message => .user message
  | .assistant message => .assistant message

def Speaker.calls : Speaker → List ToolCall
  | .user _ => []
  | .assistant message => toolCalls message

def turns : List Message → List ToolResultMessage × List Turn
  | [] => ([], [])
  | .user message :: messages => ([], ⟨.user message, (turns messages).1⟩ :: (turns messages).2)
  | .assistant message :: messages => ([], ⟨.assistant message, (turns messages).1⟩ :: (turns messages).2)
  | .toolResult message :: messages => (message :: (turns messages).1, (turns messages).2)

def Turn.messages (turn : Turn) : List Message :=
  turn.speaker.message :: turn.results.map .toolResult

theorem turns_results (results : List ToolResultMessage) (messages : List Message) :
    turns (results.map .toolResult ++ messages) = (results ++ (turns messages).1, (turns messages).2) := by
  induction results with
  | nil => rfl
  | cons result results ih => rw [List.map_cons, List.cons_append, turns, ih]; rfl

theorem turns_flatMap (all : List Turn) : turns (all.flatMap Turn.messages) = ([], all) := by
  induction all with
  | nil => rfl
  | cons turn all ih =>
    obtain ⟨speaker, results⟩ := turn
    rw [List.flatMap_cons]
    show turns (speaker.message :: (results.map .toolResult ++ all.flatMap Turn.messages)) = _
    have hRest := turns_results results (all.flatMap Turn.messages)
    rw [ih, List.append_nil] at hRest
    cases speaker with
    | user message | assistant message => rw [Speaker.message, turns, hRest]

/-! ## One turn -/

def keptTurns (normalize : Normalizer) (model : Model) : IdMap → List Turn → List (IdMap × Turn)
  | _, [] => []
  | map, ⟨.user message, results⟩ :: rest =>
    (map, ⟨.user message, results⟩) :: keptTurns normalize model map rest
  | map, ⟨.assistant message, results⟩ :: rest =>
    let map := recordNames normalize model message map
    if failed message then keptTurns normalize model map rest
    else (map, ⟨.assistant message, results⟩) :: keptTurns normalize model map rest

def Turn.renamed (model : Model) (map : IdMap) (turn : Turn) : List ToolResultMessage :=
  turn.results.map fun result => renameResult map (downgradeResult model result)

def answers (calls : List ToolCall) (result : ToolResultMessage) : Bool :=
  calls.any fun call => call.id == result.toolCallId

def answered (now : Nat) (calls : List ToolCall) (results : List ToolResultMessage) : List ToolResultMessage :=
  results.filter (answers calls) ++
    insertSyntheticToolResults now calls ((results.filter (answers calls)).map (·.toolCallId))

def turnOut (normalize : Normalizer) (model : Model) (now : Nat) : IdMap × Turn → Turn
  | (_, ⟨.user message, _⟩) => ⟨.user (downgradeUser model message), []⟩
  | (map, ⟨.assistant message, results⟩) =>
    let message := transformAssistant normalize model message
    ⟨.assistant message, answered now (toolCalls message) (Turn.renamed model map ⟨.assistant message, results⟩)⟩

/-! ## The second pass, turn by turn -/

theorem synthetic_congr {existing existing' : List String} (hSame : ∀ id, id ∈ existing ↔ id ∈ existing')
    (pending : List ToolCall) :
    insertSyntheticToolResults now pending existing = insertSyntheticToolResults now pending existing' := by
  unfold insertSyntheticToolResults
  simp only [hSame]

theorem settle_turns (messages : List Message) : ∀ (map : IdMap) (pending : List ToolCall) (existing : List String),
    settle now pending existing (rename normalize model map (messages.map (downgradeUnsupportedImages model))) =
      let results := ((turns messages).1.map fun result => renameResult map (downgradeResult model result)).filter
        (answers pending)
      results.map .toolResult ++
        ((insertSyntheticToolResults now pending (results.map (·.toolCallId) ++ existing)).map .toolResult ++
          ((keptTurns normalize model map (turns messages).2).map (turnOut normalize model now)).flatMap Turn.messages) := by
  induction messages with
  | nil =>
    intro map pending existing
    exact (List.append_nil _).symm
  | cons message messages ih =>
    intro map pending existing
    cases message with
    | user message =>
      show (insertSyntheticToolResults now pending existing).map .toolResult ++
        .user (downgradeUser model message) :: settle now [] [] (rename normalize model map
          (messages.map (downgradeUnsupportedImages model))) = _
      rw [ih map [] []]
      have hNone : ∀ results : List ToolResultMessage, results.filter (answers []) = [] :=
        fun results => List.filter_eq_nil_iff.mpr (fun result _ => Bool.false_ne_true)
      simp only [hNone]
      rfl
    | toolResult message =>
      show (if answers pending (renameResult map (downgradeResult model message)) then _ else _) = _
      simp only [turns, List.map_cons, List.filter_cons]
      split
      next hAnswers =>
        rw [ih]
        simp only [List.map_cons, List.cons_append]
        congr 2
        congr 1
        refine congrArg _ (synthetic_congr ?_ pending)
        intro id
        simp only [List.mem_append, List.mem_cons]
        tauto
      next => rw [ih]
    | assistant message =>
      show (insertSyntheticToolResults now pending existing).map .toolResult ++
        (if failed message then settle now [] [] (rename normalize model (recordNames normalize model message map)
          (messages.map (downgradeUnsupportedImages model)))
        else .assistant (transformAssistant normalize model message) ::
          settle now (toolCalls (transformAssistant normalize model message)) []
            (rename normalize model (recordNames normalize model message map)
              (messages.map (downgradeUnsupportedImages model)))) = _
      simp only [turns, List.map_nil, List.filter_nil, List.nil_append, keptTurns]
      congr 1
      split
      next hFailed =>
        rw [ih]
        have hNone : ∀ results : List ToolResultMessage, results.filter (answers []) = [] :=
          fun results => List.filter_eq_nil_iff.mpr (fun result _ => Bool.false_ne_true)
        simp only [hNone]
        rfl
      next hKept =>
        rw [ih, List.map_cons, List.flatMap_cons]
        simp only [List.append_nil]
        show _ :: (_ ++ _) = _ :: (List.map _ (_ ++ _) ++ _)
        rw [List.map_append, List.append_assoc]
        rfl

theorem turns_transform (messages : List Message) :
    turns (transformMessages normalize model now messages) =
      ([], (keptTurns normalize model (fun _ => none) (turns messages).2).map (turnOut normalize model now)) := by
  unfold transformMessages
  rw [settle_turns]
  have hNone : ∀ results : List ToolResultMessage, results.filter (answers []) = [] :=
    fun results => List.filter_eq_nil_iff.mpr (fun result _ => Bool.false_ne_true)
  simp only [hNone]
  exact turns_flatMap _

end PrimeAgent.Transform

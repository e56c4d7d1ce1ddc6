import Mathlib.Data.List.Forall2
import PrimeAgent.Provider.Turns

/-! # Kept turns

What holds of every kept turn, and when each of its calls has one answer under the name that it was given.
-/
namespace PrimeAgent.Transform

variable {normalize : Normalizer} {model : Model} {now : Nat} {map : IdMap} {message : AssistantMessage}
  {call call' : ToolCall} {name : String} {result : ToolResultMessage} {results : List ToolResultMessage}

/-! ## Names -/

theorem toolCalls_transform (message : AssistantMessage) :
    toolCalls (transformAssistant normalize model message) =
      (toolCalls message).map (transformCall normalize model message) := by
  have hThinking : ∀ same content, (transformThinking same content).filterMap asToolCall = [] := by
    intro same content
    unfold transformThinking
    split
    next => cases same <;> rfl
    next =>
      split
      next => rfl
      next =>
        split
        next => rfl
        next => cases same <;> rfl
  unfold toolCalls transformAssistant
  simp only
  induction message.content with
  | nil => rfl
  | cons block content ih =>
    rw [List.flatMap_cons, List.filterMap_append, ih]
    cases block with
    | text content' => rfl
    | thinking content' =>
      show (transformThinking _ content').filterMap _ ++ _ = _
      rw [hThinking]
      rfl
    | toolCall call => rfl

theorem newName_congr (hSame : call.id = call'.id) :
    newName normalize model message call = newName normalize model message call' := by
  unfold newName
  rw [hSame]

theorem recordNames_stays (hName : newName normalize model message call = some name) (calls : List ToolCall) :
    ∀ map : IdMap, map call.id = some name →
    calls.foldl (recordName normalize model message) map call.id = some name := by
  induction calls with
  | nil => exact fun map hMap => hMap
  | cons other calls ih =>
    intro map hMap
    refine ih _ ?_
    unfold recordName
    cases hOther : newName normalize model message other with
    | some name' =>
      simp only [IdMap.insert]
      split
      next hSame =>
        rw [newName_congr hSame, hOther] at hName
        exact hName
      next => exact hMap
    | none => exact hMap

theorem recordNames_call (hName : newName normalize model message call = some name) (hCall : call ∈ toolCalls message)
    (map : IdMap) :
    recordNames normalize model message map call.id = some name := by
  unfold recordNames
  generalize toolCalls message = all at hCall ⊢
  induction all generalizing map with
  | nil => cases hCall
  | cons other calls ih =>
    obtain rfl | hCall := List.mem_cons.mp hCall
    · refine recordNames_stays hName calls _ ?_
      unfold recordName
      rw [hName]
      exact if_pos rfl
    · exact ih _ hCall

def Speaker.callName (normalize : Normalizer) (model : Model) : Speaker → ToolCall → String
  | .user _, call => call.id
  | .assistant message, call => (newName normalize model message call).getD call.id

def resultName (map : IdMap) (result : ToolResultMessage) : String :=
  (map result.toolCallId).getD result.toolCallId

/-! ## What a kept turn has to be -/

def userText : UserContentBlock → Option TextContent
  | .text content => some content
  | _ => none

def assistantText : AssistantContentBlock → Option TextContent
  | .text content => some content
  | _ => none

def userTexts (message : UserMessage) : List TextContent :=
  match message.content with
  | .text text => [⟨text, none⟩]
  | .blocks blocks => blocks.filterMap userText

def assistantTexts (message : AssistantMessage) : List TextContent :=
  message.content.filterMap assistantText

/-- The speaker with its texts in their order; a placeholder stands for images, and foreign reasoning is added as text. -/
def SpeakerKept : Speaker → Speaker → Prop
  | .user message, .user message' =>
    (userTexts message).Sublist (userTexts message') ∧
      (userTexts message').filter (·.text ≠ nonVisionUserImagePlaceholder) =
        (userTexts message).filter (·.text ≠ nonVisionUserImagePlaceholder)
  | .assistant message, .assistant message' => (assistantTexts message).Sublist (assistantTexts message')
  | _, _ => False

structure TurnKept (normalize : Normalizer) (model : Model) (now : Nat) (pair : IdMap × Turn) (out : Turn) : Prop where
  speaker : SpeakerKept pair.2.speaker out.speaker
  /-- Every result answers a call of its turn, and is one of the turn's own or synthetic. -/
  answer : ∀ result ∈ out.results, ∃ call ∈ out.speaker.calls, result.toolCallId = call.id ∧
    ((∃ own ∈ pair.2.results, result = renameResult pair.1 (downgradeResult model own)) ∨
      ∃ call ∈ out.speaker.calls, result = syntheticToolResult now call)
  names : out.speaker.calls.map (·.id) = pair.2.speaker.calls.map (pair.2.speaker.callName normalize model)
  once : ∀ call ∈ out.speaker.calls, out.results.countP (fun result => result.toolCallId == call.id) = 1
  alike : ∀ result ∈ pair.2.results, ∀ call ∈ pair.2.speaker.calls, result.toolCallId = call.id →
    resultName pair.1 result = pair.2.speaker.callName normalize model call

def Transforms (normalize : Normalizer) (model : Model) (now : Nat) (messages : List Message) : Prop :=
  ∃ out, turns (transformMessages normalize model now messages) = ([], out) ∧
    List.Forall₂ (TurnKept normalize model now) (keptTurns normalize model (fun _ => none) (turns messages).2) out

/-- A call that keeps its id and is answered has an id that no call renamed; and a call has one answer among the results
behind it, under the names that these get, or none and a name of its own. -/
structure TurnSound (normalize : Normalizer) (model : Model) (pair : IdMap × Turn) : Prop where
  unrenamed : ∀ call ∈ pair.2.speaker.calls, pair.2.speaker.callName normalize model call = call.id →
    (∃ result ∈ pair.2.results, result.toolCallId = call.id) → (pair.1 call.id).getD call.id = call.id
  once : ∀ call ∈ pair.2.speaker.calls,
    let name := pair.2.speaker.callName normalize model call
    let answers := pair.2.results.countP fun result => resultName pair.1 result == name
    answers = 1 ∨ answers = 0 ∧
      pair.2.speaker.calls.countP (fun other => pair.2.speaker.callName normalize model other == name) = 1

/-! ## Texts -/

theorem replaceImages_texts (placeholder : String) (blocks : List UserContentBlock) : ∀ previous : Bool,
    (blocks.filterMap userText).Sublist
        ((replaceImagesWithPlaceholder placeholder previous blocks).filterMap userText) ∧
      ((replaceImagesWithPlaceholder placeholder previous blocks).filterMap userText).filter (·.text ≠ placeholder) =
        (blocks.filterMap userText).filter (·.text ≠ placeholder) := by
  induction blocks with
  | nil => exact fun previous => ⟨List.Sublist.refl _, rfl⟩
  | cons block blocks ih =>
    intro previous
    cases block with
    | text content =>
      obtain ⟨hSublist, hFilter⟩ := ih (content.text == placeholder)
      have hReplace : replaceImagesWithPlaceholder placeholder previous (.text content :: blocks) =
          .text content :: replaceImagesWithPlaceholder placeholder (content.text == placeholder) blocks := by
        cases previous <;> rfl
      rw [hReplace]
      refine ⟨hSublist.cons_cons content, ?_⟩
      show (content :: _).filter _ = (content :: _).filter _
      rw [List.filter_cons, List.filter_cons, hFilter]
    | image content =>
      obtain ⟨hSublist, hFilter⟩ := ih true
      cases previous with
      | true => exact ⟨hSublist, hFilter⟩
      | false =>
        have hReplace : replaceImagesWithPlaceholder placeholder false (.image content :: blocks) =
            .text ⟨placeholder, none⟩ :: replaceImagesWithPlaceholder placeholder true blocks := rfl
        rw [hReplace]
        constructor
        · show List.Sublist _ ((⟨placeholder, none⟩ : TextContent) :: _)
          exact hSublist.cons _
        show ((⟨placeholder, none⟩ : TextContent) :: _).filter _ = _
        rw [List.filter_cons_of_neg (by simp)]
        exact hFilter
    | raw value =>
      cases previous with
      | true | false => exact ih false

theorem speakerKept_user (message : UserMessage) :
    SpeakerKept (.user message) (.user (downgradeUser model message)) := by
  unfold downgradeUser
  split
  next => exact ⟨List.Sublist.refl _, rfl⟩
  next =>
    split
    next => exact ⟨List.Sublist.refl _, rfl⟩
    next blocks hBlocks =>
      have hTexts := replaceImages_texts nonVisionUserImagePlaceholder blocks false
      unfold SpeakerKept userTexts
      simp only [hBlocks]
      exact hTexts

theorem speakerKept_assistant (message : AssistantMessage) :
    SpeakerKept (.assistant message) (.assistant (transformAssistant normalize model message)) := by
  show (assistantTexts message).Sublist (assistantTexts (transformAssistant normalize model message))
  unfold assistantTexts transformAssistant
  simp only
  induction message.content with
  | nil => exact List.Sublist.refl _
  | cons block content ih =>
    rw [List.flatMap_cons, List.filterMap_append]
    cases block with
    | text content' => exact ih.cons_cons content'
    | thinking content' => exact ih.trans (List.sublist_append_right _ _)
    | toolCall call => exact ih

/-! ## Answers -/

theorem answers_iff {calls : List ToolCall} :
    answers calls result = true ↔ ∃ call ∈ calls, call.id = result.toolCallId := by
  simp [answers]

theorem answered_countP {calls : List ToolCall} (hCall : call ∈ calls) (results : List ToolResultMessage) :
    (answered now calls results).countP (fun result => result.toolCallId == call.id) =
      let own := results.countP fun result => result.toolCallId == call.id
      own + if own = 0 then calls.countP (fun other => other.id == call.id) else 0 := by
  have hOwn : (results.filter (answers calls)).countP (fun result => result.toolCallId == call.id) =
      results.countP (fun result => result.toolCallId == call.id) := by
    rw [List.countP_filter]
    refine List.countP_congr ?_
    intro result _
    simp only [Bool.and_eq_true, beq_iff_eq, answers_iff, and_iff_left_iff_imp]
    exact fun hId => ⟨call, hCall, hId.symm⟩
  unfold answered
  rw [List.countP_append, hOwn]
  simp only
  congr 1
  unfold insertSyntheticToolResults
  rw [List.countP_map, List.countP_filter]
  split
  next hNone =>
    refine List.countP_congr ?_
    intro other _
    simp only [Function.comp_apply, syntheticToolResult, Bool.and_eq_true, beq_iff_eq, decide_eq_true_eq,
      and_iff_left_iff_imp]
    intro hId hMem
    obtain ⟨result, hResult, hSame⟩ := List.mem_map.mp hMem
    have hPos : 0 < results.countP (fun result => result.toolCallId == call.id) := by
      rw [← hOwn]
      exact List.countP_pos_iff.mpr ⟨result, hResult, by simp [hSame, hId]⟩
    omega
  next hSome =>
    refine List.countP_eq_zero.mpr ?_
    intro other _
    simp only [Function.comp_apply, syntheticToolResult, Bool.and_eq_true, beq_iff_eq, decide_eq_true_eq, not_and,
      not_not]
    intro hId
    rw [← hOwn] at hSome
    obtain ⟨result, hResult, hSame⟩ := List.countP_pos_iff.mp (Nat.pos_of_ne_zero hSome)
    rw [hId, ← eq_of_beq hSame]
    exact List.mem_map_of_mem hResult

theorem keptTurns_recorded (all : List Turn) : ∀ (map : IdMap), ∀ pair ∈ keptTurns normalize model map all,
    ∀ message, pair.2.speaker = .assistant message → ∃ before, pair.1 = recordNames normalize model message before := by
  induction all with
  | nil =>
    intro map pair hPair
    cases hPair
  | cons turn all ih =>
    obtain ⟨speaker, results⟩ := turn
    intro map pair hPair message hSpeaker
    cases speaker with
    | user other =>
      obtain rfl | hPair := List.mem_cons.mp hPair
      · cases hSpeaker
      · exact ih map pair hPair message hSpeaker
    | assistant other =>
      unfold keptTurns at hPair
      simp only at hPair
      split at hPair
      next => exact ih _ pair hPair message hSpeaker
      next =>
        obtain rfl | hPair := List.mem_cons.mp hPair
        · obtain rfl := Speaker.assistant.inj hSpeaker
          exact ⟨map, rfl⟩
        · exact ih _ pair hPair message hSpeaker

theorem turnKept_user (message : UserMessage) (results : List ToolResultMessage) :
    TurnKept normalize model now (map, ⟨.user message, results⟩)
      (turnOut normalize model now (map, ⟨.user message, results⟩)) := by
  constructor
  · exact speakerKept_user message
  · exact fun result hResult => (by cases hResult)
  · rfl
  · exact fun call hCall => (by cases hCall)
  · exact fun result _ call hCall => (by cases hCall)

theorem downgradeResult_id (result : ToolResultMessage) :
    (downgradeResult model result).toolCallId = result.toolCallId := by
  unfold downgradeResult
  split
  next => rfl
  next => rfl

theorem renamed_countP (map : IdMap) (turn : Turn) (name : String) :
    (turn.renamed model map).countP (fun result => result.toolCallId == name) =
      turn.results.countP (fun result => resultName map result == name) := by
  unfold Turn.renamed
  rw [List.countP_map]
  refine List.countP_congr ?_
  intro result _
  simp only [Function.comp_apply, renameResult, downgradeResult_id, resultName]

theorem turnOut_calls (results : List ToolResultMessage) :
    (turnOut normalize model now (map, ⟨.assistant message, results⟩)).speaker.calls =
      (toolCalls message).map (transformCall normalize model message) :=
  toolCalls_transform message

theorem turnOut_countP (hCall : call ∈ toolCalls message) :
    let name := (newName normalize model message call).getD call.id
    (turnOut normalize model now (map, ⟨.assistant message, results⟩)).results.countP
        (fun result => result.toolCallId == name) =
      let own := results.countP fun result => resultName map result == name
      own + if own = 0 then
        (toolCalls message).countP fun other => (newName normalize model message other).getD other.id == name
      else 0 := by
  have hMem : transformCall normalize model message call ∈ toolCalls (transformAssistant normalize model message) := by
    rw [toolCalls_transform]
    exact List.mem_map_of_mem hCall
  have hCount := @answered_countP now _ _ hMem (Turn.renamed model map ⟨.assistant message, results⟩)
  rw [toolCalls_transform] at hCount
  simp only [renamed_countP, List.countP_map] at hCount
  rw [← toolCalls_transform] at hCount
  exact hCount

theorem turnOut_answer (hResult : result ∈ (turnOut normalize model now (map, ⟨.assistant message, results⟩)).results) :
    let calls := (turnOut normalize model now (map, ⟨.assistant message, results⟩)).speaker.calls
    ∃ call ∈ calls, result.toolCallId = call.id ∧
      ((∃ own ∈ results, result = renameResult map (downgradeResult model own)) ∨
        ∃ call ∈ calls, result = syntheticToolResult now call) := by
  obtain hOwn | hSynthetic := List.mem_append.mp hResult
  · obtain ⟨hMem, hAnswers⟩ := List.mem_filter.mp hOwn
    obtain ⟨call, hCall, hId⟩ := answers_iff.mp hAnswers
    obtain ⟨own, hMine, rfl⟩ := List.mem_map.mp hMem
    exact ⟨call, hCall, hId.symm, .inl ⟨own, hMine, rfl⟩⟩
  · obtain ⟨call, hCall, rfl⟩ := List.mem_map.mp hSynthetic
    have hCall := (List.mem_filter.mp hCall).1
    exact ⟨call, hCall, rfl, .inr ⟨call, hCall, rfl⟩⟩

theorem once_iff {own same : Nat} (hSame : 0 < same) :
    own + (if own = 0 then same else 0) = 1 ↔ own = 1 ∨ own = 0 ∧ same = 1 := by
  split
  next hNone => omega
  next hSome => omega

theorem turnKept_iff {pair : IdMap × Turn}
    (hRecorded : ∀ message, pair.2.speaker = .assistant message →
      ∃ before, pair.1 = recordNames normalize model message before) :
    TurnKept normalize model now pair (turnOut normalize model now pair) ↔ TurnSound normalize model pair := by
  obtain ⟨map, speaker, results⟩ := pair
  cases speaker with
  | user message =>
    refine iff_of_true (turnKept_user message results) ?_
    exact ⟨fun call hCall => (by cases hCall), fun call hCall => (by cases hCall)⟩
  | assistant message =>
    obtain ⟨before, hMap⟩ := hRecorded message rfl
    simp only at hMap
    have hPos : ∀ call ∈ toolCalls message, 0 < (toolCalls message).countP fun other =>
        (newName normalize model message other).getD other.id == (newName normalize model message call).getD call.id :=
      fun call hCall => List.countP_pos_iff.mpr ⟨call, hCall, beq_self_eq_true _⟩
    constructor
    · intro hKept
      constructor
      · rintro call hCall hName ⟨result, hResult, hId⟩
        have hAlike := hKept.alike result hResult call hCall hId
        rw [hName] at hAlike
        unfold resultName at hAlike
        rw [hId] at hAlike
        exact hAlike
      · intro call hCall
        have hMem : transformCall normalize model message call ∈
            (turnOut normalize model now (map, ⟨.assistant message, results⟩)).speaker.calls := by
          rw [turnOut_calls]
          exact List.mem_map_of_mem hCall
        have hOnce := hKept.once _ hMem
        exact (once_iff (hPos call hCall)).mp ((turnOut_countP hCall).symm.trans hOnce)
    · intro hSound
      constructor
      · exact speakerKept_assistant message
      · exact fun result hResult => turnOut_answer hResult
      · rw [turnOut_calls, List.map_map]
        rfl
      · intro call' hCall'
        rw [turnOut_calls] at hCall'
        obtain ⟨call, hCall, rfl⟩ := List.mem_map.mp hCall'
        exact (turnOut_countP hCall).trans ((once_iff (hPos call hCall)).mpr (hSound.once call hCall))
      · intro result hResult call hCall hId
        unfold resultName
        simp only [hId]
        cases hName : newName normalize model message call with
        | some name =>
          have hRenamed := recordNames_call hName hCall before
          show (map call.id).getD call.id = (newName normalize model message call).getD call.id
          rw [hMap, hRenamed, hName]
        | none =>
          have hSame : (Speaker.assistant message).callName normalize model call = call.id := by
            show (newName normalize model message call).getD call.id = call.id
            rw [hName]
            rfl
          rw [hSame]
          exact hSound.unrenamed call hCall hSame ⟨result, hResult, hId⟩

theorem transforms_turns {messages : List Message} :
    Transforms normalize model now messages ↔
      ∀ pair ∈ keptTurns normalize model (fun _ => none) (turns messages).2,
        TurnKept normalize model now pair (turnOut normalize model now pair) := by
  have hOut := @turns_transform normalize model now messages
  constructor
  · rintro ⟨out, hTurns, hKept⟩ pair hPair
    obtain ⟨-, rfl⟩ := Prod.mk.inj (hOut.symm.trans hTurns)
    rw [List.forall₂_map_right_iff, List.forall₂_same] at hKept
    exact hKept pair hPair
  · intro hKept
    refine ⟨_, hOut, ?_⟩
    rw [List.forall₂_map_right_iff, List.forall₂_same]
    exact hKept

theorem transforms_iff (normalize : Normalizer) (model : Model) (now : Nat) (messages : List Message) :
    Transforms normalize model now messages ↔
      ∀ pair ∈ keptTurns normalize model (fun _ => none) (turns messages).2, TurnSound normalize model pair := by
  have hRecorded := @keptTurns_recorded normalize model (turns messages).2 (fun _ => none)
  rw [transforms_turns]
  constructor
  · exact fun hKept pair hPair => (turnKept_iff (hRecorded pair hPair)).mp (hKept pair hPair)
  · exact fun hSound pair hPair => (turnKept_iff (hRecorded pair hPair)).mpr (hSound pair hPair)

/-! ## An id that is used again -/

def occurring (messages : List Message) : List String :=
  messages.flatMap fun
    | .user _ => []
    | .assistant message => (toolCalls message).map (·.id)
    | .toolResult message => [message.toolCallId]

def callingTurn (provider : String) : List Message :=
  [.assistant {
    content := [.toolCall ⟨"a", "echo", [], none⟩]
    api := "", provider := provider, model := "m", responseModel := none, responseId := none, diagnostics := none
    usage := ⟨0, 0, 0, 0, 0, ⟨⟨0⟩, ⟨0⟩, ⟨0⟩, ⟨0⟩, ⟨0⟩⟩⟩
    stopReason := .toolUse, stopReasonRaw := none, errorMessage := none, timestamp := 0 },
    .toolResult ⟨"a", "echo", [], none, false, 0⟩]

/-- A foreign call renames an id, and the reading model has used the same id behind it: the answer gets the foreign name. -/
theorem reused_id_loses_answer : ¬ ∀ normalize model now messages,
    (∀ id ∈ occurring messages, ∀ id' ∈ occurring messages, ∀ message message',
      (normalize id model message).getD id = (normalize id' model message').getD id' → id = id') →
    Transforms normalize model now messages := by
  intro hTransforms
  have hKept := transforms_turns.mp (hTransforms (fun id _ _ => if id = "a" then some "b" else none)
    ⟨"m", "", "home", true⟩ 0 (callingTurn "away" ++ callingTurn "home") (by
      intro id hId id' hId' _ _ _
      have hOnly : occurring (callingTurn "away" ++ callingTurn "home") = List.replicate 4 "a" := rfl
      rw [hOnly] at hId hId'
      rw [List.eq_of_mem_replicate hId, List.eq_of_mem_replicate hId']))
  have hAlike := (hKept _ (List.mem_cons_of_mem _ List.mem_cons_self)).alike _ List.mem_cons_self _ List.mem_cons_self rfl
  revert hAlike
  decide

end PrimeAgent.Transform

import ForumModeration.Proofs.Editor.Reading
import ForumModeration.Proofs.Editor.Storage
import ForumModeration.Proofs.Grammar.Calls

/-!
# `ForumModeration.Proofs.Editor.Instants`: the instants of a review rule

A review rule is made of two texts, and each of them is read with a reading of the clock of
its own. If the first two readings show the same point of time, then all of the rule is
resolved at one instant. If they do not, then there are texts that tell: a rule that
compares with the present and hands it to an action holds both instants
(`oneInstant_iff_sameTime`). So clocks whose readings differ split the present of a rule
(`reviewRule_splits_present`).
-/

set_option autoImplicit false

namespace ForumModeration.Editor

open Text ForumModeration.Parser

/-- A review rule has the trigger and the actions that its texts are read as at an instant. -/
def ResolvedAt (editor : Editor) (now : Instant) (mode : Mode) (trigger actions : String)
    (rule : ReviewRule) : Prop :=
  editor.parseRuleAt now trigger mode = .ok rule.trigger ∧
    editor.parseActionsAt now actions mode = .ok rule.actions

/-- Every review rule that is made with a clock is resolved at one instant. -/
def OneInstant (editor : Editor) (clock : Clock) : Prop :=
  ∀ (mode : Mode) (name trigger actions : String) (target : Target) (rule : ReviewRule),
    ((editor.reviewRule name trigger actions target mode).run clock).1 = .ok rule →
      ∃ now, editor.ResolvedAt now mode trigger actions rule

/-- The grammar of a language depends on the point of time only. -/
theorem grammar_of_sameTime {editor : Editor} {mode : Mode} {now now' : Instant}
    (same : now.sameTime now' = true) : editor.grammar mode now = editor.grammar mode now' := by
  obtain ⟨seconds, nanos⟩ : now.seconds = now'.seconds ∧ now.nanos = now'.nanos := by
    simpa [Instant.sameTime] using same
  unfold grammar Instant.withOffset
  simp only [seconds, nanos]

/-! ### Texts with the word for the present -/

section

variable (offset : Offset) (now : Instant)

/-- A condition that compares with the present. -/
theorem parseRuleAt_now : ({ offset } : Editor).parseRuleAt now "create_time > now" .dsl
    = .ok (.condition ⟨.createTime, .gt, .instant (now.withOffset offset)⟩) := by
  have field : TokenTable.dsl.Token (.field .createTime) "create_time > now".toList
      " > now".toList :=
    @TokenTable.Token.of_spelling _ _ _ "create_time".toList "create_time".toList (by decide)
      (by decide) rfl fun _ => ahead_cons.mpr (by decide)
  have operator : TokenTable.dsl.Token (.operator .gt) " > now".toList " now".toList :=
    @TokenTable.Token.spaced _ _ _ ['>'] (by decide) (by decide)
      fun ends => absurd ends (by decide)
  have word : TokenTable.dsl.Token .now "now".toList [] :=
    @TokenTable.Token.of_spelling _ _ _ "NOW".toList "now".toList (by decide) (by decide) rfl
      fun _ => ahead_nil _
  have value : ScalarPhrase .dsl (now.withOffset offset) true " now".toList
      (.instant (now.withOffset offset)) [] :=
    ⟨[' '], "now".toList, rfl, isBlank_of_mem_space, .now word⟩
  have condition : ConditionPhrase .dsl (now.withOffset offset) 0 "create_time > now".toList
      (.condition ⟨.createTime, .gt, .instant (now.withOffset offset)⟩) [] :=
    .mk field operator value nofun
  have rule : RulePhrase .dsl (now.withOffset offset) 0 "create_time > now".toList _ :=
    ⟨[], .single (.single condition), by simp⟩
  exact readWith_eq_ok_iff.mpr (Grammar.rule_of_rulePhrase rule (Nat.zero_le _))

/-- The present as an argument. -/
theorem scalar_now :
    (Grammar.ofTable .dsl now).scalar "now)".toList = .ok (.instant now, [')']) := by
  have word : TokenTable.dsl.Token .now "now)".toList [')'] :=
    @TokenTable.Token.of_spelling _ _ _ "NOW".toList "now".toList (by decide) (by decide) rfl
      fun _ => ahead_cons.mpr (by decide)
  have closing : TokenTable.dsl.Token (.punctuation .rightParen) [')'] [] :=
    @TokenTable.Token.of_spelling _ _ _ [')'] [')'] (by decide) (by decide) rfl fun _ => ahead_nil _
  have phrase : ScalarPhrase .dsl now false "now)".toList (.instant now) [')'] :=
    ⟨[], "now)".toList, rfl, by simp, .now word⟩
  exact Grammar.scalar_of_literal
    ((Grammar.costs_of_scalarPhrase phrase (.inr ⟨_, _, rfl, closing⟩)).reads 0 (Nat.le_refl 0))

/-- An action that is given the present. -/
theorem parseActionsAt_now : ({ offset } : Editor).parseActionsAt now "ban(since=now)" .dsl
    = .ok [⟨.ban, .ofList [("since", .instant (now.withOffset offset))]⟩] := by
  let g : Grammar := .ofTable .dsl (now.withOffset offset)
  -- Tokens are read alike at all instants, so one instant shows where they are.
  let start : Grammar := .ofTable .dsl ⟨0, 0, .utc, by decide⟩
  obtain ⟨none, kind, opening, assign, noComma, closing, noMore⟩ :
      g.symbol .actionPrefix "ban(since=now)".toList
        = .error ⟨"ban(since=now)".toList, none, false⟩ ∧
      g.actionKind "ban(since=now)".toList = .ok (.ban, "(since=now)".toList) ∧
      g.sign .leftParen "(since=now)".toList = .ok ((), "since=now)".toList) ∧
      g.sign .assign "=now)".toList = .ok ((), "now)".toList) ∧
      g.sign .comma [')'] = .error ⟨[')'], none, false⟩ ∧
      g.sign .rightParen [')'] = .ok ((), []) ∧ g.sign .comma [] = .error ⟨[], none, false⟩ :=
    show start.symbol .actionPrefix "ban(since=now)".toList = _ ∧
      start.actionKind "ban(since=now)".toList = _ ∧
      start.sign .leftParen "(since=now)".toList = _ ∧ start.sign .assign "=now)".toList = _ ∧
      start.sign .comma [')'] = _ ∧ start.sign .rightParen [')'] = _ ∧ start.sign .comma [] = _ by
    decide +kernel
  have noPrefix : g.introduction.Declines "ban(since=now)".toList :=
    Declines.bind ⟨_, none, rfl⟩
  have argument : g.scalar "now)".toList = .ok (.instant (now.withOffset offset), [')']) :=
    scalar_now (now.withOffset offset)
  refine readWith_eq_ok_iff.mpr (complete_eq_ok.mpr ?_)
  change g.calls "ban(since=now)".toList = _
  clear_value g
  have parameter : g.parameter "since=now)".toList
      = .ok (("since", .instant (now.withOffset offset)), [')']) := by
    have name : run Grammar.isNameChar "since=now)".toList
        = .ok ("since".toList, "=now)".toList) := by decide +kernel
    refine bind_eq_ok.mpr ⟨(), "since=now)".toList, rfl, bind_eq_ok.mpr ⟨_, _, name, ?_⟩⟩
    refine bind_eq_ok.mpr ⟨_, _, required_eq_ok.mpr assign, ?_⟩
    exact bind_eq_ok.mpr ⟨_, _, expecting_eq_ok.mpr (commit_eq_ok.mpr argument), rfl⟩
  have params : separatedOrNone g.parameter (g.sign .comma) "since=now)".toList
      = .ok ([("since", .instant (now.withOffset offset))], [')']) := by
    unfold separatedOrNone
    rw [bind_of_ok (optional_of_ok parameter)]
    exact (bind_of_ok (many_of_error (bind_of_error noComma) rfl)).trans rfl
  have call : g.call "ban(since=now)".toList
      = .ok (⟨.ban, .ofList [("since", .instant (now.withOffset offset))]⟩, []) := by
    refine bind_eq_ok.mpr ⟨_, _, expecting_eq_ok.mpr kind, ?_⟩
    refine bind_eq_ok.mpr ⟨_, _, required_eq_ok.mpr opening, bind_eq_ok.mpr ⟨_, _, params, ?_⟩⟩
    exact bind_eq_ok.mpr ⟨_, _, required_eq_ok.mpr closing, rfl⟩
  have calls : separated g.call (g.sign .comma) "ban(since=now)".toList
      = .ok ([⟨.ban, .ofList [("since", .instant (now.withOffset offset))]⟩], []) :=
    bind_eq_ok.mpr ⟨_, _, call,
      bind_eq_ok.mpr ⟨_, _, many_of_error (bind_of_error noMore) rfl, rfl⟩⟩
  exact bind_eq_ok.mpr ⟨_, _, noPrefix.optional, bind_eq_ok.mpr ⟨_, _, calls, rfl⟩⟩

/-- The instants in a rule that compares with the present and hands it to an action: each of
them is a reading of its own. -/
theorem reviewRule_now (clock : Clock) :
    ∃ rule, ((({ offset } : Editor).reviewRule "r" "create_time > now" "ban(since=now)" .all
        .dsl).run clock).1 = .ok rule ∧
      rule.trigger
        = .condition ⟨.createTime, .gt, .instant ((clock.readings 0).withOffset offset)⟩ ∧
      rule.actions
        = [⟨.ban, .ofList [("since", .instant ((clock.readings 1).withOffset offset))]⟩] := by
  have compatible : ∀ c ∈ (Trigger.condition ⟨.createTime, .gt,
      .instant ((clock.readings 0).withOffset offset)⟩).conditions,
      Target.all.allows c.field = true := List.forall_mem_singleton.mpr rfl
  refine ⟨⟨{ name := "r", trigger := _, target := .all, actions := _ }, compatible⟩, ?_, rfl, rfl⟩
  rw [reviewRule_run, parseRuleAt_now]
  dsimp only
  rw [parseActionsAt_now]
  exact congrArg (Except.mapError _) (ReviewRule.build_toDraft ⟨_, compatible⟩)

/-- If there is an instant at which each text gives what it gave at one of two readings, then
both readings show the same point of time. -/
theorem sameTime_of_resolvedAt {first second : Instant} {rule : ReviewRule}
    (trigger : rule.trigger = .condition ⟨.createTime, .gt, .instant (first.withOffset offset)⟩)
    (actions : rule.actions = [⟨.ban, .ofList [("since", .instant (second.withOffset offset))]⟩])
    (resolved : ({ offset } : Editor).ResolvedAt now .dsl "create_time > now" "ban(since=now)"
      rule) : first.sameTime second = true := by
  obtain ⟨readTrigger, readActions⟩ := resolved
  rw [parseRuleAt_now, trigger] at readTrigger
  rw [parseActionsAt_now, actions] at readActions
  have atFirst : now.withOffset offset = first.withOffset offset := by
    injection readTrigger with same
    injection same with same
    injection same with _ _ same
    injection same
  have atSecond : now.withOffset offset = second.withOffset offset := by
    have values : some (Value.instant (now.withOffset offset))
        = some (Value.instant (second.withOffset offset)) :=
      congrArg (fun actions : List Action => actions.head?.bind fun action =>
        action.params.entries.head?.map Prod.snd) (Except.ok.inj readActions)
    injection values with same
    injection same
  have same := atFirst.symm.trans atSecond
  have seconds : (first.withOffset offset).seconds = (second.withOffset offset).seconds :=
    congrArg Instant.seconds same
  have nanos : (first.withOffset offset).nanos = (second.withOffset offset).nanos :=
    congrArg Instant.nanos same
  unfold Instant.sameTime
  rw [show first.seconds = second.seconds from seconds,
    show first.nanos = second.nanos from nanos, decide_eq_true rfl, decide_eq_true rfl]
  rfl

end

/-! ### One instant -/

/-- A clock whose first two readings show the same point of time gives one instant to every
review rule, with any tables and dates in any offset. With the tables of both languages, no
other clock does. -/
theorem oneInstant_iff_sameTime (clock : Clock) :
    ((clock.readings 0).sameTime (clock.readings 1) = true →
      ∀ editor : Editor, editor.OneInstant clock) ∧
    ∀ offset : Offset, ({ offset } : Editor).OneInstant clock ↔
      (clock.readings 0).sameTime (clock.readings 1) = true := by
  have shared : (clock.readings 0).sameTime (clock.readings 1) = true →
      ∀ editor : Editor, editor.OneInstant clock := by
    intro same editor mode name trigger actions target rule built
    have readActions : editor.parseActionsAt (clock.readings 1) actions mode = .ok rule.actions :=
      parseActions_of_reviewRule built
    unfold parseActionsAt at readActions
    rw [← grammar_of_sameTime same] at readActions
    exact ⟨clock.readings 0, parseRule_of_reviewRule built, readActions⟩
  refine ⟨shared, fun offset => ⟨fun oneInstant => ?_, fun same => shared same _⟩⟩
  obtain ⟨rule, built, trigger, actions⟩ := reviewRule_now offset clock
  obtain ⟨now, resolved⟩ := oneInstant _ _ _ _ _ rule built
  exact sameTime_of_resolvedAt offset now trigger actions resolved

/-- A clock that stands still. -/
theorem oneInstant_iff_sameTime_fixed :
    ({} : Editor).OneInstant (.fixed ⟨1696132800, 0, .utc, by decide⟩) :=
  (oneInstant_iff_sameTime (.fixed ⟨1696132800, 0, .utc, by decide⟩)).1 (by decide) {}

/-- With a clock that moves on by a second between its readings, a rule is made that is
resolved at no one instant. -/
theorem reviewRule_splits_present :
    let clock : Clock := ⟨fun n =>
      if n = 0 then ⟨1696132800, 0, .utc, by decide⟩ else ⟨1696132801, 0, .utc, by decide⟩⟩
    ∃ rule, ((({} : Editor).reviewRule "r" "create_time > now" "ban(since=now)" .all
        .dsl).run clock).1 = .ok rule ∧
      ¬∃ now, ({} : Editor).ResolvedAt now .dsl "create_time > now" "ban(since=now)" rule := by
  intro clock
  obtain ⟨rule, built, trigger, actions⟩ := reviewRule_now .china clock
  refine ⟨rule, built, fun ⟨now, resolved⟩ => ?_⟩
  have same : (clock.readings 0).sameTime (clock.readings 1) = true :=
    sameTime_of_resolvedAt .china now trigger actions resolved
  exact absurd same (by decide)

end ForumModeration.Editor

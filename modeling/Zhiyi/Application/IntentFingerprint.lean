import Zhiyi.Application.Commands
import Zhiyi.Domain.BudgetLaw
import Zhiyi.Library.IsoText
import Zhiyi.Library.JsonText

set_option autoImplicit false

/-! Which commands have one intent text, and which inputs the digit limit keeps from
having a text at all. -/
namespace Zhiyi
open Python

theorem optionalText_injective {α : Type} {value : α → String} (h : Function.Injective value) :
    Function.Injective fun a : Option α => optionalText (a.map value) := by
  intro a b hab
  cases a with
  | none =>
    cases b with
    | none => rfl
    | some b => simp [optionalText] at hab
  | some a =>
    cases b with
    | none => simp [optionalText] at hab
    | some b =>
      have hvalue : value a = value b := by simpa [optionalText] using hab
      rw [h hvalue]

theorem canonicalizeReferences_injective : Function.Injective canonicalizeReferences := by
  intro a b h
  have hvalues : Function.Injective fun r : ReferenceId => Json.str r.value := fun r s hrs =>
    Identifier.value_injective (by simpa using hrs)
  exact hvalues.list_map (by simpa [canonicalizeReferences] using h)

theorem canonicalizeDraft_injective : Function.Injective canonicalizeDraft := by
  intro a b h
  simp only [canonicalizeDraft, Json.obj.injEq, List.cons.injEq, Prod.mk.injEq, true_and,
    and_true, Json.arr.injEq] at h
  obtain ⟨hanswer, happrovals, hartifacts, hcitations, hcorrelation, hwarnings⟩ := h
  have hid : Function.Injective (id : String → String) := fun _ _ h => h
  have hanswer : a.answer = b.answer := optionalText_injective hid (by simpa using hanswer)
  have hstr : Function.Injective Json.str := fun _ _ h => by simpa using h
  obtain ⟨f, hf, hd⟩ := a
  obtain ⟨g, hg, he⟩ := b
  have hfields : f = g := by
    obtain ⟨_, _, _, _, _, _⟩ := f
    obtain ⟨_, _, _, _, _, _⟩ := g
    simp only [RunResultDraftFields.mk.injEq]
    exact ⟨hanswer, hstr.list_map hwarnings, canonicalizeReferences_injective hcitations,
      canonicalizeReferences_injective hartifacts, canonicalizeReferences_injective happrovals,
      optionalText_injective Identifier.value_injective hcorrelation⟩
  subst hfields
  rfl

theorem RunErrorCode.value_injective : Function.Injective RunErrorCode.value := by
  intro a b h
  revert h
  cases a <;> cases b <;> decide

theorem BudgetDimension.value_injective : Function.Injective BudgetDimension.value := by
  intro a b h
  revert h
  cases a <;> cases b <;> decide

theorem canonicalizeError_injective : Function.Injective canonicalizeError := by
  intro a b h
  simp only [canonicalizeError, Json.obj.injEq, List.cons.injEq, Prod.mk.injEq, true_and,
    and_true, Json.str.injEq] at h
  obtain ⟨hcode, hcorrelation, hdimension⟩ := h
  obtain ⟨f, hf⟩ := a
  obtain ⟨g, hg⟩ := b
  have hfields : f = g := by
    obtain ⟨_, _, _⟩ := f
    obtain ⟨_, _, _⟩ := g
    simp only [SafeRunErrorFields.mk.injEq]
    exact ⟨RunErrorCode.value_injective hcode,
      optionalText_injective Identifier.value_injective hcorrelation,
      optionalText_injective BudgetDimension.value_injective hdimension⟩
  subst hfields
  rfl

theorem isoformat_injective : Function.Injective DateTime.isoformat := by
  intro a b h
  have ha := DateTime.fromisoformat_isoformat a
  rw [h, DateTime.fromisoformat_isoformat b] at ha
  exact (congrArg Prod.fst (Except.ok.inj ha)).symm

theorem canonicalizeAgentVersion_injective : Function.Injective canonicalizeAgentVersion := by
  intro a b h
  simp only [canonicalizeAgentVersion, Json.obj.injEq, List.cons.injEq, Prod.mk.injEq, true_and,
    and_true, Json.str.injEq] at h
  obtain ⟨hagent, hdigest, htenant, hversion⟩ := h
  obtain ⟨_, _, _, _, _⟩ := a
  obtain ⟨_, _, _, _, _⟩ := b
  simp only [AgentVersionRef.mk.injEq]
  exact ⟨Identifier.value_injective htenant, Identifier.value_injective hagent,
    Identifier.value_injective hversion, hdigest⟩

/-- Equal limits, the cost compared by value and the deadline by instant. -/
structure RunBudget.SameTerms (a b : RunBudget) : Prop where
  deadlineAt : a.deadlineAt = b.deadlineAt
  maxSteps : a.maxSteps = b.maxSteps
  maxModelCalls : a.maxModelCalls = b.maxModelCalls
  maxToolCalls : a.maxToolCalls = b.maxToolCalls
  maxInputTokens : a.maxInputTokens = b.maxInputTokens
  maxOutputTokens : a.maxOutputTokens = b.maxOutputTokens
  maxTotalTokens : a.maxTotalTokens = b.maxTotalTokens
  maxCost : a.maxCost.value = b.maxCost.value
  currency : a.currency = b.currency

theorem canonicalizeBudget_eq_iff {a b : RunBudget} :
    canonicalizeBudget a = canonicalizeBudget b ↔ a.SameTerms b := by
  simp only [canonicalizeBudget, Json.obj.injEq, List.cons.injEq, Prod.mk.injEq, true_and,
    and_true, Json.str.injEq, Json.int.injEq, Nat.cast_inj, canonicalDecimal_eq_iff,
    isoformat_injective.eq_iff]
  exact ⟨fun ⟨h1, h2, h3, h4, h5, h6, h7, h8, h9⟩ => ⟨h2, h7, h5, h8, h4, h6, h9, h3, h1⟩,
    fun ⟨h2, h7, h5, h8, h4, h6, h9, h3, h1⟩ => ⟨h1, h2, h3, h4, h5, h6, h7, h8, h9⟩⟩

/-- Operations of one type with the same business payload. -/
def Operation.SamePayload : Operation → Operation → Prop
  | .start, .start => True
  | .waitForApproval r, .waitForApproval s => r = s
  | .waitForResolution r, .waitForResolution s => r = s
  | .resume, .resume => True
  | .succeed d, .succeed e => d = e
  | .fail d e, .fail d' e' => d = d' ∧ e = e'
  | .cancel _, .cancel _ => True
  | .consumeBudget a, .consumeBudget b => a.chargeId = b.chargeId ∧ a.SameContent b
  | .enforceDeadline, .enforceDeadline => True
  | _, _ => False

/-- Commands of one type, tenant and target, with the same business payload. -/
def Command.SameIntent : Command → Command → Prop
  | .create a, .create b =>
    a.tenantId = b.tenantId ∧ a.taskId = b.taskId ∧ a.agentVersion = b.agentVersion ∧
      a.budget.SameTerms b.budget
  | .existing a, .existing b =>
    a.tenantId = b.tenantId ∧ a.runId = b.runId ∧ a.operation.SamePayload b.operation
  | _, _ => False

/-- The document that `intent_fingerprint` hashes. -/
def Command.body : Command → Json
  | .create c => .obj [
    ("agent_version", canonicalizeAgentVersion c.agentVersion),
    ("budget", canonicalizeBudget c.budget),
    ("command_type", .str CommandType.createRun.value),
    ("task_id", .str c.taskId.value),
    ("tenant_id", .str c.tenantId.value)]
  | .existing c => .obj [
    ("command_type", .str c.operation.commandType.value),
    ("payload", c.operation.businessPayload),
    ("run_id", .str c.runId.value),
    ("tenant_id", .str c.tenantId.value)]

theorem chargeBody_eq_iff {a b : BudgetCharge} :
    a.body = b.body ↔ a.chargeId = b.chargeId ∧ a.SameContent b := by
  constructor
  · intro h
    have hid : a.chargeId = b.chargeId := by
      simp only [BudgetCharge.body, Json.obj.injEq, List.cons.injEq, Prod.mk.injEq, true_and,
        Json.str.injEq] at h
      exact Identifier.value_injective h.1
    exact ⟨hid, (BudgetCharge.body_eq_iff hid).mp h⟩
  · rintro ⟨hid, hsame⟩
    exact (BudgetCharge.body_eq_iff hid).mpr hsame

theorem Operation.payload_eq_iff {a b : Operation} :
    (a.commandType = b.commandType ∧ a.businessPayload = b.businessPayload) ↔ a.SamePayload b := by
  cases a <;> cases b <;>
    simp [commandType, businessPayload, SamePayload, Identifier.value_injective.eq_iff,
      canonicalizeDraft_injective.eq_iff, canonicalizeError_injective.eq_iff, chargeBody_eq_iff, and_comm]

theorem CommandType.value_injective : Function.Injective CommandType.value := by
  intro a b h
  revert h
  cases a <;> cases b <;> decide

theorem Command.body_eq_iff {a b : Command} : a.body = b.body ↔ a.SameIntent b := by
  cases a with
  | create a =>
    cases b with
    | create b =>
      simp only [body, SameIntent, Json.obj.injEq, List.cons.injEq, Prod.mk.injEq, true_and, and_true,
        Json.str.injEq, Identifier.value_injective.eq_iff, canonicalizeAgentVersion_injective.eq_iff,
        canonicalizeBudget_eq_iff]
      exact ⟨fun ⟨h1, h2, h3, h4⟩ => ⟨h4, h3, h1, h2⟩, fun ⟨h4, h3, h1, h2⟩ => ⟨h1, h2, h3, h4⟩⟩
    | existing b => simp [body, SameIntent]
  | existing a =>
    cases b with
    | create b => simp [body, SameIntent]
    | existing b =>
      simp only [body, SameIntent, Json.obj.injEq, List.cons.injEq, Prod.mk.injEq, true_and, and_true,
        Json.str.injEq, Identifier.value_injective.eq_iff, CommandType.value_injective.eq_iff]
      rw [← Operation.payload_eq_iff]
      exact ⟨fun ⟨h1, h2, h3, h4⟩ => ⟨h4, h3, h1, h2⟩, fun ⟨h4, h3, h1, h2⟩ => ⟨h1, h2, h3, h4⟩⟩

theorem canonical_optionalText (s : Option String) : (optionalText s).Canonical := by
  cases s <;> trivial

theorem canonical_canonicalizeReferences (references : List ReferenceId) :
    (canonicalizeReferences references).Canonical := by
  refine Json.canonical_arr fun j hj => ?_
  obtain ⟨reference, -, rfl⟩ := List.mem_map.mp hj
  trivial

theorem canonical_canonicalizeDraft (d : RunResultDraft) : (canonicalizeDraft d).Canonical := by
  have hwarnings : (Json.arr (d.warningCodes.map .str)).Canonical := by
    refine Json.canonical_arr fun j hj => ?_
    obtain ⟨code, -, rfl⟩ := List.mem_map.mp hj
    trivial
  refine Json.canonical_obj (by simp only [List.map_cons, List.map_nil]; decide) ?_
  simp only [List.mem_cons, List.not_mem_nil, or_false, forall_eq_or_imp, forall_eq]
  exact ⟨canonical_optionalText _, canonical_canonicalizeReferences _,
    canonical_canonicalizeReferences _, canonical_canonicalizeReferences _, canonical_optionalText _,
    hwarnings⟩

theorem canonical_canonicalizeError (e : SafeRunError) : (canonicalizeError e).Canonical := by
  refine Json.canonical_obj (by simp only [List.map_cons, List.map_nil]; decide) ?_
  simp only [List.mem_cons, List.not_mem_nil, or_false, forall_eq_or_imp, forall_eq]
  exact ⟨trivial, canonical_optionalText _, canonical_optionalText _⟩

theorem canonical_businessPayload (operation : Operation) : operation.businessPayload.Canonical := by
  have hnil : (Json.obj []).Canonical := Json.canonical_obj List.Pairwise.nil (by simp)
  cases operation with
  | start | resume | cancel | enforceDeadline => exact hnil
  | waitForApproval | waitForResolution =>
    exact Json.canonical_obj (List.pairwise_singleton _ _) (by simp [Json.Canonical])
  | succeed draft =>
    refine Json.canonical_obj (List.pairwise_singleton _ _) ?_
    simpa using canonical_canonicalizeDraft draft
  | fail draft error =>
    refine Json.canonical_obj (by simp only [List.map_cons, List.map_nil]; decide) ?_
    simpa using ⟨canonical_canonicalizeError error, canonical_canonicalizeDraft draft⟩
  | consumeBudget charge =>
    refine Json.canonical_obj (List.pairwise_singleton _ _) ?_
    simpa using charge.body_canonical

theorem Command.body_canonical (command : Command) : command.body.Canonical := by
  cases command with
  | create c =>
    refine Json.canonical_obj (by simp only [List.map_cons, List.map_nil]; decide) ?_
    simp only [List.mem_cons, List.not_mem_nil, or_false, forall_eq_or_imp, forall_eq]
    refine ⟨Json.canonical_obj (by simp only [List.map_cons, List.map_nil]; decide)
      (by simp [Json.Canonical]), Json.canonical_obj
      (by simp only [List.map_cons, List.map_nil]; decide) (by simp [Json.Canonical]), trivial, trivial,
      trivial⟩
  | existing c =>
    refine Json.canonical_obj (by simp only [List.map_cons, List.map_nil]; decide) ?_
    simp only [List.mem_cons, List.not_mem_nil, or_false, forall_eq_or_imp, forall_eq]
    exact ⟨trivial, canonical_businessPayload _, trivial, trivial⟩

/-- Every limit of the budget converts to text. -/
def RunBudget.Printable (budget : RunBudget) : Prop :=
  WithinStrDigits budget.maxInputTokens ∧ WithinStrDigits budget.maxModelCalls ∧
    WithinStrDigits budget.maxOutputTokens ∧ WithinStrDigits budget.maxSteps ∧
    WithinStrDigits budget.maxToolCalls ∧ WithinStrDigits budget.maxTotalTokens

/-- Every integer of the intent converts to text. -/
def Command.Printable : Command → Prop
  | .create c => c.budget.Printable
  | .existing c =>
    match c.operation with
    | .consumeBudget charge => charge.Printable
    | _ => True

theorem withinStrDigits_strings (strings : List String) :
    Json.itemsWithin (strings.map .str) = true := by
  induction strings with
  | nil => rfl
  | cons s strings ih => simpa [Json.itemsWithin, Json.withinStrDigits] using ih

theorem withinStrDigits_optionalText (s : Option String) : (optionalText s).withinStrDigits = true := by
  cases s <;> rfl

theorem withinStrDigits_canonicalizeReferences (references : List ReferenceId) :
    (canonicalizeReferences references).withinStrDigits = true := by
  have h := withinStrDigits_strings (references.map (·.value))
  rw [List.map_map] at h
  exact h

theorem withinStrDigits_canonicalizeDraft (d : RunResultDraft) :
    (canonicalizeDraft d).withinStrDigits = true := by
  simp [canonicalizeDraft, Json.withinStrDigits, Json.fieldsWithin, withinStrDigits_optionalText,
    withinStrDigits_canonicalizeReferences, withinStrDigits_strings]

theorem withinStrDigits_canonicalizeError (e : SafeRunError) :
    (canonicalizeError e).withinStrDigits = true := by
  simp [canonicalizeError, Json.withinStrDigits, Json.fieldsWithin, withinStrDigits_optionalText]

theorem Command.withinStrDigits_body (command : Command) :
    command.body.withinStrDigits = true ↔ command.Printable := by
  cases command with
  | create c =>
    simp [body, Printable, RunBudget.Printable, canonicalizeAgentVersion, canonicalizeBudget,
      Json.withinStrDigits, Json.fieldsWithin]
  | existing c =>
    have hcharge : ∀ charge : BudgetCharge, charge.body.withinStrDigits = true ↔ charge.Printable :=
      fun charge => charge.withinStrDigits_body
    rcases hoperation : c.operation <;>
      simp [body, Printable, hoperation, Operation.businessPayload, Json.withinStrDigits,
        Json.fieldsWithin, withinStrDigits_canonicalizeDraft, withinStrDigits_canonicalizeError, hcharge]

/-- Commands have one canonical text exactly when they have one intent, whatever their
command ids and expected versions. With one text printable, so is the other. -/
theorem intent_encoding_injective (a b : Command) (ha : a.Printable) :
    a.body.dumps = b.body.dumps ↔ a.SameIntent b := by
  rw [← Command.withinStrDigits_body] at ha
  rw [← Command.body_eq_iff]
  refine ⟨fun h => ?_, fun h => by rw [h]⟩
  have hdumps : a.body.dumps = .ok (String.ofList (Json.print a.body.sortKeys)) := if_pos ha
  have hsorted := Json.dumps_inj hdumps (h ▸ hdumps)
  rwa [Json.sortKeys_of_canonical _ a.body_canonical, Json.sortKeys_of_canonical _ b.body_canonical]
    at hsorted

theorem intent_encoding_of_charges :
    let retry (commandId : CommandId) (version : ℕ) (cost : Decimal) (h : normalizeDecimal cost = cost) :
        Command := .existing {
      tenantId := Sample.tenant
      commandId := commandId
      runId := Sample.runId
      expectedVersion := version
      operation := .consumeBudget {
        Sample.charge with cost := cost, valid := rfl, normalized := h } }
    let first := retry ⟨"command-1", by decide⟩ 2 ⟨25, -2⟩ rfl
    let second := retry ⟨"command-2", by decide⟩ 3 ⟨250, -3⟩ rfl
    first.body.dumps = second.body.dumps := by
  intro retry first second
  have hprintable : Sample.charge.Printable := by decide +kernel
  refine (intent_encoding_injective first second hprintable).mpr ?_
  refine ⟨rfl, rfl, rfl, rfl, rfl, rfl, rfl, rfl, ?_⟩
  norm_num [Decimal.value]

namespace BudgetSnapshot

end BudgetSnapshot

end Zhiyi

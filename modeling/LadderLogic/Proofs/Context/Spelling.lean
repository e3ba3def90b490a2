import LadderLogic.Context.Basic
import LadderLogic.Proofs.Rung.Spelling

/-! Conclusions about rungs in different spellings. A view is asked for opcodes and for operands without blanks
only. -/
namespace LadderLogic

@[simp] theorem Operand.isNumeric_trim (s : String) : isNumeric (Text.trim s) = isNumeric s := by
  unfold isNumeric Text.trim
  rw [String.toList_ofList, Text.trimChars_trimChars]

@[simp] theorem Rule.isScalingConstant_trim (s : String) :
    isScalingConstant (Text.trim s) = isScalingConstant s := by
  rw [isScalingConstant, isScalingConstant, Text.trim_trim]

namespace Instruction.Respells
variable {i j : Instruction} (h : i.Respells j)
include h

theorem misuse? : Rule.misuse? i = Rule.misuse? j := by
  have hbits : Rule.bits i.operands = Rule.bits j.operands := by rw [Rule.bits, Rule.bits, h.operands]
  have hfirst : Rule.bits (i.operands.take 2) = Rule.bits (j.operands.take 2) := by
    rw [Rule.bits, Rule.bits, List.map_take, List.map_take, h.operands]
  simp only [Rule.misuse?, h.hasOpcode, h.opcode, hbits, hfirst]

end Instruction.Respells

open Instruction (Respells)

/-- The first operands of instructions, without the blanks around them. -/
theorem map_trim_heads_eq_of_respells {is js : List Instruction} (h : List.Forall₂ Respells is js) :
    (is.filterMap (·.operands.head?)).map Text.trim = (js.filterMap (·.operands.head?)).map Text.trim := by
  have hheads : is.map (fun i => i.operands.head?.map Text.trim) = js.map fun j => j.operands.head?.map Text.trim :=
    map_eq_of_forall₂ h fun _ _ hij => hij.head?_operands
  have hsome := congrArg (List.filterMap id) hheads
  simpa only [List.map_filterMap, List.filterMap_map, Function.comp_def, id_eq] using hsome

namespace Rule

theorem Chain.ofPath?_eq_of_respells {path path' : List Instruction} (h : List.Forall₂ Respells path path') :
    ofPath? path = ofPath? path' := by
  have hfirsts : ∀ opcodes,
      ((path.filter (·.hasOpcode opcodes)).filterMap (·.operands.head?)).map Text.trim =
        ((path'.filter (·.hasOpcode opcodes)).filterMap (·.operands.head?)).map Text.trim :=
    fun opcodes => map_trim_heads_eq_of_respells (filter_hasOpcode_of_respells h opcodes)
  simp only [ofPath?, hfirsts]

end Rule

namespace View.Respells
variable {v w : View} (h : v.Respells w)
include h

theorem concern? : Rule.concern? v = Rule.concern? w := by
  have hmap : v.instructions.map Rule.misuse? = w.instructions.map Rule.misuse? :=
    map_eq_of_forall₂ h.instructions fun _ _ hij => hij.misuse?
  have hfirst := congrArg (List.findSome? id) hmap
  simpa only [Rule.concern?, List.findSome?_map, Function.id_comp] using hfirst

theorem chains : v.paths.filterMap Rule.Chain.ofPath? = w.paths.filterMap Rule.Chain.ofPath? := by
  unfold View.paths
  rw [h.circuit]
  split
  · simp only [List.filterMap_cons, Rule.Chain.ofPath?_eq_of_respells h.instructions]
  · rfl

theorem scalingConstants (opcodes : List String) :
    ((v.having opcodes).flatMap (·.operands)).any Rule.isScalingConstant =
      ((w.having opcodes).flatMap (·.operands)).any Rule.isScalingConstant := by
  have hoperands : (v.having opcodes).flatMap (fun i => i.operands.map Text.trim) =
      (w.having opcodes).flatMap fun i => i.operands.map Text.trim :=
    flatMap_eq_of_forall₂ (h.having opcodes) fun _ _ hij => hij.operands
  have hany := congrArg (List.any · Rule.isScalingConstant) hoperands
  simpa only [← List.map_flatMap, List.any_map, Function.comp_def, Rule.isScalingConstant_trim] using hany

theorem accumulators (opcodes : List String) (kind : PatternKind) :
    Rule.accumulators opcodes kind v = Rule.accumulators opcodes kind w := by
  have htags : ∀ names : List String, (names.filter Operand.isTag).map Text.trim =
      (names.map Text.trim).filter Operand.isTag := by
    intro names
    simp only [List.filter_map, Function.comp_def, Operand.isTag_trim]
  have hfound := h.having opcodes
  unfold Rule.accumulators
  generalize v.having opcodes = is, w.having opcodes = js at hfound
  cases hfound with
  | nil => rfl
  | cons hij hrest =>
    rename_i i j is js
    have hheads := map_trim_heads_eq_of_respells (List.Forall₂.cons hij hrest)
    have hpreset := hij.getElem?_operands 1
    simp only [htags, hheads, hij.opcode]
    cases hi : i.operands[1]? with
    | none =>
      rw [hi, Option.map_none, eq_comm, Option.map_eq_none_iff] at hpreset
      rw [hpreset]
    | some p =>
      rw [hi, Option.map_some, eq_comm, Option.map_eq_some_iff] at hpreset
      obtain ⟨q, hq, htrim⟩ := hpreset
      have hnumeric : Operand.isNumeric p = Operand.isNumeric q := by
        rw [← Operand.isNumeric_trim p, ← htrim, Operand.isNumeric_trim]
      simp only [hq, htrim, hnumeric]

theorem edge : Rule.edge v = Rule.edge w := by
  rw [Rule.edge, Rule.edge, h.hasOpcode]

/-- Each rule finds the same on both views. -/
theorem rule (kind : PatternKind) : kind.rule v = kind.rule w := by
  cases kind with
  | timerDelay => exact h.accumulators Opcode.timers .timerDelay
  | counterAccumulator => exact h.accumulators Opcode.counters .counterAccumulator
  | codeConcern => simp only [PatternKind.rule, Rule.codeConcern, h.concern?]
  | permissiveChain => simp only [PatternKind.rule, Rule.permissiveChain, h.chains]
  | dataScaling =>
    simp only [PatternKind.rule, Rule.dataScaling, h.hasOpcode, h.concern?, h.tags, h.scalingConstants]
  | oneShot => simp only [PatternKind.rule, Rule.oneShot, h.hasOpcode, h.usedBy, h.edge]
  | _ =>
    -- The other rules ask for tags, opcodes and the text only.
    simp only [PatternKind.rule, Rule.safetyInterlock, Rule.startStopCircuit, Rule.latchUnlatch,
      Rule.faultDetection, Rule.handshake, Rule.sequencer, Rule.comparisonBranch, Rule.statusMonitoring,
      Rule.zoneControl, Rule.alarmAnnunciation, Rule.modeSelection, Rule.jogControl, Rule.panelWrite,
      h.tags, h.inputs, h.outputs, h.text, h.hasOpcode, h.countOpcodes, h.readBy, h.writtenBy, h.gatesOutput]

theorem detect : Pattern.detect v = Pattern.detect w := by
  have hfind : Pattern.find? v = Pattern.find? w := by
    funext kind
    rw [Pattern.find?, Pattern.find?, h.rule, h.location]
  rw [Pattern.detect, Pattern.detect, hfind]

theorem category (patterns : List Pattern) (graph : TagGraph) (statusOutputs : Nat) :
    Category.ofView v patterns graph statusOutputs = Category.ofView w patterns graph statusOutputs := by
  simp only [Category.ofView, Category.ofOpcodes, h.tags, h.outputs, h.hasOpcode]

theorem purpose (patterns : List Pattern) (category : Category) (subsystems : List String) :
    Purpose.ofView v patterns category subsystems = Purpose.ofView w patterns category subsystems := by
  simp only [Purpose.ofView, Template.ofView, Template.ofShape, h.inputs, h.outputs, h.readBy]

theorem othersUsing (graph : TagGraph) : v.othersUsing graph = w.othersUsing graph := by
  funext tag usage
  rw [View.othersUsing, View.othersUsing, h.location]

theorem keyPoints (patterns : List Pattern) (graph : TagGraph) (p : Purpose) (optionBits : Bool) :
    KeyPoint.all v patterns graph p optionBits = KeyPoint.all w patterns graph p optionBits := by
  simp only [KeyPoint.all, KeyPoint.readers, KeyPoint.writers, h.circuit, h.inputs, h.edge, h.othersUsing]

theorem context (graph : TagGraph) (settings : Settings) :
    Context.ofView v graph settings = Context.ofView w graph settings := by
  simp only [Context.ofView, Context.isSafetyRelevant, View.relatedRungs, BranchGroup.ofView, h.detect,
    h.category, h.tags, h.purpose, h.othersUsing, h.keyPoints, h.inputs, h.outputs, h.circuit]

end View.Respells

/-- A change to one element does not show if nothing that is made of it changes. -/
theorem flatMap_modify_eq {f : α → α} {g : α → List β} {xs : List α} {n : Nat}
    (h : ∀ x, xs[n]? = some x → g (f x) = g x) : (xs.modify n f).flatMap g = xs.flatMap g := by
  induction xs generalizing n with
  | nil => rw [List.modify_nil]
  | cons x xs ih =>
    cases n with
    | zero => rw [List.modify_zero_cons, List.flatMap_cons, List.flatMap_cons, h x rfl]
    | succ n =>
      rw [List.modify_succ_cons, List.flatMap_cons, List.flatMap_cons]
      exact congrArg (g x ++ ·) (ih h)

namespace Project

/-- The rung at a place: the program's place among the programs, the routine's in the program and the
rung's in the routine. -/
def rungAt? (p : Project) (program routine rung : Nat) : Option Rung := do
  let owner ← p.programs[program]?
  let part ← owner.routines[routine]?
  part.rungs[rung]?

/-- The project with another rung at a place. -/
def replaceRung (p : Project) (program routine rung : Nat) (new : Rung) : Project :=
  { p with
    programs := p.programs.modify program fun owner =>
      { owner with
        routines := owner.routines.modify routine fun part =>
          { part with rungs := part.rungs.modify rung fun _ => new } } }

theorem declaredTags_replaceRung (p : Project) (i j k : Nat) (new : Rung) :
    (p.replaceRung i j k new).declaredTags = p.declaredTags := by
  have htags : (p.replaceRung i j k new).programs.flatMap (·.tags) = p.programs.flatMap (·.tags) :=
    flatMap_modify_eq fun _ _ => rfl
  rw [declaredTags, declaredTags, htags]
  rfl

theorem sightings_eq_flatMap_programs (p : Project) :
    p.sightings = p.programs.flatMap fun program => program.routines.flatMap fun routine =>
      routine.rungs.flatMap fun rung => rung.sightings ⟨program.name, routine.name, rung.number⟩ := by
  simp only [sightings, rungs, List.flatMap_assoc, List.flatMap_map]

theorem sightings_replaceRung {p : Project} {i j k : Nat} {r s : Rung} (hat : p.rungAt? i j k = some r)
    (h : r.Respells s) : (p.replaceRung i j k s).sightings = p.sightings := by
  rw [sightings_eq_flatMap_programs, sightings_eq_flatMap_programs]
  refine flatMap_modify_eq fun owner howner => ?_
  refine flatMap_modify_eq fun part hpart => ?_
  refine flatMap_modify_eq fun rung hrung => ?_
  have heq : rung = r := by simpa [rungAt?, howner, hpart, hrung] using hat
  rw [heq, ← h.number]
  exact (h.sightings _).symm

end Project

theorem TagGraph.ofProject_replaceRung {p : Project} {i j k : Nat} {r s : Rung} (hat : p.rungAt? i j k = some r)
    (h : r.Respells s) : ofProject (p.replaceRung i j k s) = ofProject p := by
  rw [ofProject, ofProject, Project.declaredTags_replaceRung, Project.sightings_replaceRung hat h]

namespace Rung

/-- Blanks around opcodes and operands, the case of opcodes and the data about branches tell on nothing.
From two spellings of a rung with a text of its own the same is concluded, and one may take the place of the
other anywhere in a project without a change to the tag graph. -/
theorem context_and_graph_eq_of_respells {r s : Rung} (h : r.Respells s) :
    (Text.isBlankText r.text = false → ∀ program routine graph settings,
        Context.ofView (View.ofRung program routine r) graph settings =
          Context.ofView (View.ofRung program routine s) graph settings) ∧
      ∀ (p : Project) (i j k : Nat), p.rungAt? i j k = some r →
        TagGraph.ofProject (p.replaceRung i j k s) = TagGraph.ofProject p := by
  constructor
  · intro htext program routine graph settings
    exact (h.view htext program routine).context graph settings
  · intro p i j k hat
    exact TagGraph.ofProject_replaceRung hat h

theorem context_and_graph_eq_of_respells_padded :
    let r : Rung :=
      { number := 7, text := "XIC(Start)"
        instructions := [{ kind := " xic\t", operands := ["E_Stop "], branchLeg := some 1 },
          { kind := "Ton", operands := ["\u00A0T1", " 500 ", "0"] }, { kind := "OTE", operands := [" Run"] }] }
    let s : Rung :=
      { number := 7, comment := some "delay", text := "XIC(Start)"
        instructions := [{ kind := "XIC", operands := ["E_Stop"] }, { kind := "TON", operands := ["T1", "500", " 0"] },
          { kind := "ote ", operands := ["Run"], branchStart := some true }] }
    let p : Project :=
      { programs := [{ name := "Aux" },
          { name := "Main", routines := [{ name := "R1", rungs := [{ number := 3, text := "XIO(Run) OTE(M1)" }, r] }] }] }
    (r.Respells s ∧ Text.isBlankText r.text = false ∧ p.rungAt? 1 0 1 = some r) ∧
      Context.ofView (View.ofRung "Main" "R1" r) (.ofProject p) {} =
        Context.ofView (View.ofRung "Main" "R1" s) (.ofProject p) {} ∧
      TagGraph.ofProject (p.replaceRung 1 0 1 s) = TagGraph.ofProject p := by
  intro r s p
  have h : r.Respells s := by
    refine ⟨rfl, rfl, .cons ⟨?_, ?_⟩ (.cons ⟨?_, ?_⟩ (.cons ⟨?_, ?_⟩ .nil))⟩ <;> decide +kernel
  have htext : Text.isBlankText r.text = false := by decide +kernel
  have hat : p.rungAt? 1 0 1 = some r := rfl
  have hall := context_and_graph_eq_of_respells h
  exact ⟨⟨h, htext, hat⟩, hall.1 htext "Main" "R1" (.ofProject p) {}, hall.2 p 1 0 1 hat⟩

end Rung

end LadderLogic

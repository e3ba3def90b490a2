import LadderLogic.Proofs.Pattern.Permissive
import LadderLogic.Proofs.Tag.Related

/-! The names that patterns have. All are tags that the rung reads or writes, but for the coil of a chain of
permissives, which is the first operand of an instruction, whatever that is. -/
namespace LadderLogic

namespace Instruction

/-- The access of an instruction is that of the opcodes that it has one of. -/
theorem access_of_hasOpcode {i : Instruction} {opcodes : List String} (h : i.hasOpcode opcodes = true)
    {access : Access} (haccess : ∀ op ∈ opcodes, Access.ofOpcode (Text.upper op) = access) :
    i.access = access := by
  obtain ⟨op, hop, heq⟩ := List.any_eq_true.1 h
  rw [Instruction.access, ← eq_of_beq heq]
  exact haccess op hop

theorem mem_usedOperands_of_getElem? {i : Instruction} {n : Nat} {operand : String} {usage : Usage}
    (hoperand : i.operands[n]? = some operand) (husage : i.access.usage? n = some usage) :
    (operand, usage) ∈ i.usedOperands :=
  mem_usedOperands.2 ⟨n, List.mem_zipIdx_iff_getElem?.2 hoperand, husage⟩

end Instruction

namespace View

/-- The inputs and the outputs are the tags that the instructions read and write. -/
structure Coherent (v : View) : Prop where
  inputs : v.inputs = tagsUsed v.instructions (· == .read)
  outputs : v.outputs = tagsUsed v.instructions (· == .write)

theorem coherent_ofRung (program routine : String) (rung : Rung) : (ofRung program routine rung).Coherent :=
  ⟨rfl, rfl⟩

theorem nodup_tagsUsed (is : List Instruction) (wanted : Usage → Bool) : (tagsUsed is wanted).Nodup :=
  nodup_eraseDups _

theorem having_subset (v : View) (opcodes : List String) : v.having opcodes ⊆ v.instructions :=
  List.filter_subset_self _

/-- Some of the tags, once each. -/
structure Picks (v : View) (names : List String) : Prop where
  subset : names ⊆ v.tags
  nodup : names.Nodup

section Picks
variable {v : View}

theorem Picks.filter {names : List String} (h : v.Picks names) (q : String → Bool) : v.Picks (names.filter q) :=
  ⟨fun _ ht => h.subset (List.mem_of_mem_filter ht), h.nodup.filter q⟩

theorem Picks.eraseDups_append {names more : List String} (h : v.Picks names) (hmore : v.Picks more) :
    v.Picks (names ++ more).eraseDups := by
  refine ⟨?_, nodup_eraseDups _⟩
  intro t ht
  rcases List.mem_append.1 (List.mem_eraseDups.1 ht) with hmem | hmem
  · exact h.subset hmem
  · exact hmore.subset hmem

theorem picks_select (v : View) (words : Vocabulary) : v.Picks (words.select v.tags) := by
  refine ⟨?_, nodup_eraseDups _⟩
  intro t ht
  exact List.mem_of_mem_filter (List.mem_eraseDups.1 ht)

end Picks

namespace Coherent
variable {v : View} (hv : v.Coherent)
include hv

theorem tagsFor_eq (usage : Usage) : v.tagsFor usage = tagsUsed v.instructions (· == usage) := by
  cases usage with
  | read => exact hv.inputs
  | write => exact hv.outputs

/-- What some of the instructions read is read on the rung, and likewise what they write. -/
theorem tagsUsed_subset_tagsFor {is : List Instruction} (his : is ⊆ v.instructions) (usage : Usage) :
    tagsUsed is (· == usage) ⊆ v.tagsFor usage := by
  intro t ht
  obtain ⟨i, hi, hused⟩ := mem_tagsUsed.1 ht
  rw [hv.tagsFor_eq]
  exact mem_tagsUsed.2 ⟨i, his hi, hused⟩

theorem mem_tags_of_mem_usedOperands {i : Instruction} (hi : i ∈ v.instructions) {operand : String}
    {usage : Usage} (hused : (operand, usage) ∈ i.usedOperands) (htag : Operand.isTag operand = true) :
    Text.trim operand ∈ v.tags := by
  refine mem_tags.2 ⟨usage, ?_⟩
  rw [hv.tagsFor_eq]
  exact mem_tagsUsed.2 ⟨i, hi, operand, usage, hused, beq_self_eq_true usage, htag, rfl⟩

theorem picks_tagsUsed {is : List Instruction} (his : is ⊆ v.instructions) (wanted : Usage → Bool) :
    v.Picks (tagsUsed is wanted) := by
  refine ⟨?_, nodup_tagsUsed is wanted⟩
  intro t ht
  obtain ⟨i, hi, operand, usage, hused, -, htag, rfl⟩ := mem_tagsUsed.1 ht
  exact hv.mem_tags_of_mem_usedOperands (his hi) hused htag

theorem picks_usedBy (opcodes : List String) : v.Picks (v.usedBy opcodes) :=
  hv.picks_tagsUsed (v.having_subset opcodes) _

theorem picks_readBy (opcodes : List String) : v.Picks (v.readBy opcodes) :=
  hv.picks_tagsUsed (v.having_subset opcodes) _

theorem picks_writtenBy (opcodes : List String) : v.Picks (v.writtenBy opcodes) :=
  hv.picks_tagsUsed (v.having_subset opcodes) _

theorem picks_outputs : v.Picks v.outputs := by
  rw [hv.outputs]
  exact hv.picks_tagsUsed (List.Subset.refl _) _

theorem isTag_of_mem_tags {tag : String} (h : tag ∈ v.tags) : Operand.isTag tag = true := by
  obtain ⟨usage, husage⟩ := mem_tags.1 h
  rw [hv.tagsFor_eq] at husage
  exact isTag_of_mem_tagsUsed husage

end Coherent

end View

namespace Rule

theorem mem_bits {operands : List String} {t : String} (h : t ∈ bits operands) :
    ∃ operand ∈ operands, Operand.isTag operand = true ∧ Text.trim operand = t := by
  obtain ⟨hmem, hbit⟩ := List.mem_filter.1 h
  obtain ⟨operand, hoperand, rfl⟩ := List.mem_map.1 hmem
  rw [Bool.and_eq_true, Operand.isTag_trim] at hbit
  exact ⟨operand, hoperand, hbit.1, rfl⟩

/-- A misuse is of the two operands of a computation, or of an operand of a comparison. -/
theorem misuse?_cases {i : Instruction} {description : String} {tags : List String}
    (h : misuse? i = some (description, tags)) :
    (i.hasOpcode ["MUL", "DIV"] = true ∧ tags = bits (i.operands.take 2)) ∨
      (i.hasOpcode ["EQU"] = true ∧ tags ⊆ bits i.operands) := by
  unfold misuse? at h
  split at h
  · next hopcode =>
    split at h
    · next a b hpair =>
      rw [Option.some.injEq, Prod.mk.injEq] at h
      rw [hpair]
      exact .inl ⟨hopcode, h.2.symm⟩
    · cases h
  · split at h
    · next hopcode =>
      split at h
      · next bit rest hfirst =>
        rw [Option.some.injEq, Prod.mk.injEq] at h
        rw [hfirst, ← h.2]
        exact .inr ⟨hopcode, List.cons_subset_cons bit (List.nil_subset rest)⟩
      · cases h
    · cases h

/-- The bits of a misuse are operands that the instruction reads. -/
theorem exists_operand_of_misuse? {i : Instruction} {description : String} {tags : List String}
    (h : misuse? i = some (description, tags)) {t : String} (ht : t ∈ tags) :
    ∃ operand, (operand, .read) ∈ i.usedOperands ∧ Operand.isTag operand = true ∧ Text.trim operand = t := by
  rcases misuse?_cases h with ⟨hopcode, rfl⟩ | ⟨hopcode, hsubset⟩
  · obtain ⟨operand, hoperand, htag, htrim⟩ := mem_bits ht
    obtain ⟨n, hn, hget⟩ := List.mem_take_iff_getElem.1 hoperand
    have haccess : i.access = .computes := Instruction.access_of_hasOpcode hopcode (by decide)
    have husage : i.access.usage? n = some .read := by
      rw [haccess]
      match n, hn with
      | 0, _ => rfl
      | 1, _ => rfl
      | n + 2, hn => omega
    have hget? : i.operands[n]? = some operand := List.getElem?_eq_some_iff.2 ⟨by omega, hget⟩
    exact ⟨operand, Instruction.mem_usedOperands_of_getElem? hget? husage, htag, htrim⟩
  · obtain ⟨operand, hoperand, htag, htrim⟩ := mem_bits (hsubset ht)
    obtain ⟨n, hget?⟩ := List.mem_iff_getElem?.1 hoperand
    have haccess : i.access = .readsAll := Instruction.access_of_hasOpcode hopcode (by decide)
    have husage : i.access.usage? n = some .read := by
      rw [haccess]
      rfl
    exact ⟨operand, Instruction.mem_usedOperands_of_getElem? hget? husage, htag, htrim⟩

section Coherent
variable {v : View} (hv : v.Coherent)
include hv

theorem subset_tags_of_concern? {description : String} {tags : List String}
    (h : concern? v = some (description, tags)) : tags ⊆ v.tags := by
  obtain ⟨i, hi, hmisuse⟩ := List.exists_of_findSome?_eq_some h
  intro t ht
  obtain ⟨operand, hused, htag, rfl⟩ := exists_operand_of_misuse? hmisuse ht
  exact hv.mem_tags_of_mem_usedOperands hi hused htag

/-- An instruction that accumulates writes its first operand. -/
theorem picks_accumulators {opcodes : List String} {kind : PatternKind}
    (hopcodes : ∀ op ∈ opcodes, Access.ofOpcode (Text.upper op) = .writesAll) {f : Finding}
    (h : accumulators opcodes kind v = some f) : v.Picks f.tags := by
  obtain ⟨description, rfl⟩ := eq_of_accumulators h
  refine ⟨?_, nodup_eraseDups _⟩
  intro t ht
  obtain ⟨operand, hoperand, rfl⟩ := List.mem_map.1 (List.mem_eraseDups.1 ht)
  obtain ⟨hfirst, htag⟩ := List.mem_filter.1 hoperand
  obtain ⟨i, hi, hhead⟩ := List.mem_filterMap.1 hfirst
  obtain ⟨hi, hopcode⟩ := List.mem_filter.1 hi
  have husage : i.access.usage? 0 = some .write := by
    rw [Instruction.access_of_hasOpcode hopcode hopcodes]
    rfl
  rw [List.head?_eq_getElem?] at hhead
  exact hv.mem_tags_of_mem_usedOperands hi (Instruction.mem_usedOperands_of_getElem? hhead husage) htag

theorem picks_panelWrite {f : Finding} (h : panelWrite v = some f) : v.Picks f.tags := by
  refine of_guard h ?_
  have hmoved := (hv.picks_writtenBy ["MOV", "COP"]).filter Vocabulary.panel.recognizes
  have hcoils := (hv.picks_writtenBy ["OTE", "OTL", "OTU"]).filter fun t => Vocabulary.panel.recognizes t &&
    !((v.writtenBy ["MOV", "COP"]).filter Vocabulary.panel.recognizes).contains t
  refine ⟨List.append_subset.2 ⟨hmoved.subset, hcoils.subset⟩, ?_⟩
  refine List.Nodup.append hmoved.nodup hcoils.nodup ?_
  -- The coils are those that are not among the moved ones.
  intro t ht hcoil
  obtain ⟨-, hnot⟩ := List.mem_filter.1 hcoil
  rw [Bool.and_eq_true, Bool.not_eq_true', List.contains_eq_mem] at hnot
  exact of_decide_eq_false hnot.2 ht

end Coherent

end Rule

namespace PatternKind

/-- All rules but two find tags of the rung, once each. -/
theorem picks_rule {v : View} (hv : v.Coherent) {kind : PatternKind} (hchain : kind ≠ .permissiveChain)
    (hconcern : kind ≠ .codeConcern) {f : Finding} (h : kind.rule v = some f) : v.Picks f.tags := by
  cases kind with
  | permissiveChain => exact absurd rfl hchain
  | codeConcern => exact absurd rfl hconcern
  | timerDelay => exact Rule.picks_accumulators hv (by decide) h
  | counterAccumulator => exact Rule.picks_accumulators hv (by decide) h
  | dataScaling =>
    obtain ⟨_, -, description, rfl⟩ := Rule.eq_of_dataScaling h
    exact v.picks_select _
  | panelWrite => exact Rule.picks_panelWrite hv h
  | safetyInterlock =>
    obtain ⟨rest, rfl⟩ := Rule.eq_of_safetyInterlock h
    exact v.picks_select _
  | faultDetection | zoneControl => exact Rule.of_guard h (v.picks_select _)
  | startStopCircuit | handshake =>
    refine Rule.of_guard h ?_
    exact (v.picks_select _).eraseDups_append (v.picks_select _)
  | latchUnlatch =>
    refine Rule.of_guard h ?_
    exact (hv.picks_writtenBy _).eraseDups_append (hv.picks_writtenBy _)
  | oneShot => exact Rule.of_guard h (hv.picks_usedBy _)
  | comparisonBranch => exact Rule.of_guard h (hv.picks_readBy _)
  | sequencer =>
    refine Rule.of_guard h ?_
    exact ((hv.picks_readBy _).filter _).eraseDups_append ((hv.picks_writtenBy _).filter _)
  | statusMonitoring => exact Rule.of_guard h (hv.picks_outputs.filter _)
  | alarmAnnunciation | modeSelection | jogControl =>
    exact Rule.of_guard h ((hv.picks_writtenBy _).filter _)

/-- A rule finds tags of the rung unless it looks for chains of permissives. -/
theorem subset_tags_rule {v : View} (hv : v.Coherent) {kind : PatternKind} (hchain : kind ≠ .permissiveChain)
    {f : Finding} (h : kind.rule v = some f) : f.tags ⊆ v.tags := by
  by_cases hconcern : kind = .codeConcern
  · rw [hconcern] at h
    obtain ⟨⟨description, tags⟩, htags, rfl⟩ := Option.map_eq_some_iff.1 h
    exact Rule.subset_tags_of_concern? hv htags
  · exact (picks_rule hv hchain hconcern h).subset

end PatternKind

open Instruction (isCoil contactsOn)

theorem Instruction.isTag_of_mem_contactsOn {path : List Instruction} {name : String}
    (h : name ∈ contactsOn path) : Operand.isTag name = true := by
  obtain ⟨i, hi, rfl⟩ := List.mem_map.1 h
  obtain ⟨-, hcontact⟩ := List.mem_filter.1 hi
  rw [isContact, Bool.and_eq_true] at hcontact
  rw [target, Operand.isTag_trim]
  cases hoperands : i.operands with
  | nil =>
    rw [hoperands] at hcontact
    cases hcontact.2
  | cons operand operands =>
    rw [hoperands] at hcontact
    exact hcontact.2

namespace Pattern

/-- The names of a pattern are tags, and no numbers, quoted texts, placeholders or blanks. For a chain of
permissives that holds of the contacts, and of the coil if its first operand is a tag. -/
theorem isTag_of_mem_detect {program routine : String} {rung : Rung} {p : Pattern}
    (h : p ∈ detect (View.ofRung program routine rung)) :
    (p.kind ≠ .permissiveChain → ∀ name ∈ p.tags, Operand.isTag name = true) ∧
      (p.kind = .permissiveChain →
        ∃ path ∈ (View.ofRung program routine rung).paths, ∃ coil, path.filter isCoil = [coil] ∧
          p.tags = contactsOn path ++ [coil.target] ∧
          (∀ name ∈ contactsOn path, Operand.isTag name = true) ∧
          ((∀ name ∈ p.tags, Operand.isTag name = true) ↔ Operand.isTag coil.target = true)) := by
  have hv := View.coherent_ofRung program routine rung
  constructor
  · intro hkind name hname
    obtain ⟨f, hf, hp⟩ := exists_finding_of_mem_detect h
    rw [hp] at hname
    exact hv.isTag_of_mem_tags (PatternKind.subset_tags_rule hv hkind hf hname)
  · intro hkind
    obtain ⟨c, hc, htags, -⟩ := exists_chain_of_mem_detect h hkind
    obtain ⟨earlier, path, later, hpaths, hspans, -⟩ := Rule.Chain.exists_path_of_longest hc
    obtain ⟨coil, hcoil, htarget⟩ := List.map_eq_singleton_iff.1 hspans.coil
    have hnames : p.tags = contactsOn path ++ [coil.target] := by rw [htags, hspans.contacts, htarget]
    have hcontacts : ∀ name ∈ contactsOn path, Operand.isTag name = true :=
      fun name hname => Instruction.isTag_of_mem_contactsOn hname
    refine ⟨path, by simp [hpaths], coil, hcoil, hnames, hcontacts, ?_⟩
    rw [hnames, List.forall_mem_append, List.forall_mem_singleton]
    exact and_iff_right hcontacts

theorem isTag_of_mem_detect_literals :
    let rung : Rung :=
      { number := 1, text := "XIC(A) XIC(B) XIC(5) XIC(C) XIC('D') XIC(E) TON(?,100,0) TOF( T1 ,5) OTE(Run)" }
    let v := View.ofRung "Main" "R1" rung
    (∃ p ∈ detect v, p.kind = .timerDelay ∧ p.tags = ["T1"] ∧ ∀ name ∈ p.tags, Operand.isTag name = true) ∧
      ∃ p ∈ detect v, p.kind = .permissiveChain ∧ p.tags = ["A", "B", "C", "E", "Run"] ∧
        ∀ name ∈ p.tags, Operand.isTag name = true := by
  intro rung v
  have htimer : (find? v .timerDelay).map (·.tags) = some ["T1"] := by decide +kernel
  have hchain : (find? v .permissiveChain).map (·.tags) = some ["A", "B", "C", "E", "Run"] := by decide +kernel
  obtain ⟨p, hfind, hnames⟩ := Option.map_eq_some_iff.1 htimer
  obtain ⟨q, hfindQ, htags⟩ := Option.map_eq_some_iff.1 hchain
  obtain ⟨hp, hkind⟩ := mem_detect_of_find? hfind
  obtain ⟨hq, hkindQ⟩ := mem_detect_of_find? hfindQ
  have hother : p.kind ≠ .permissiveChain := by
    rw [hkind]
    decide
  refine ⟨⟨p, hp, hkind, hnames, (isTag_of_mem_detect hp).1 hother⟩, q, hq, hkindQ, htags, ?_⟩
  obtain ⟨path, -, coil, -, hnames, -, hiff⟩ := (isTag_of_mem_detect hq).2 hkindQ
  have htarget : coil.target = "Run" := by
    have hlast := congrArg List.getLast? (hnames.symm.trans htags)
    rw [List.getLast?_concat] at hlast
    exact Option.some.inj hlast
  refine hiff.2 ?_
  rw [htarget]
  decide +kernel

/-- A chain of permissives reports the number that its coil is given for a tag. -/
theorem mem_tags_permissiveChain_of_literal :
    let rung : Rung := { number := 1, text := "XIC(A) XIC(B) XIC(C) XIC(D) OTE(5)" }
    (∃ p ∈ detect (View.ofRung "Main" "R1" rung), p.kind = .permissiveChain ∧ "5" ∈ p.tags) ∧
      Operand.isTag "5" = false ∧ Operand.isNumeric "5" = true := by
  intro rung
  have hfound : (find? (View.ofRung "Main" "R1" rung) .permissiveChain).map (·.tags) =
      some ["A", "B", "C", "D", "5"] := by decide +kernel
  obtain ⟨p, hfind, htags⟩ := Option.map_eq_some_iff.1 hfound
  obtain ⟨hp, hkind⟩ := mem_detect_of_find? hfind
  refine ⟨⟨p, hp, hkind, ?_⟩, by decide +kernel, by decide +kernel⟩
  rw [htags]
  decide

end Pattern

end LadderLogic

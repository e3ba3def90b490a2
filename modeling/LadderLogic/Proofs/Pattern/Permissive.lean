import LadderLogic.Proofs.Instruction.Operand
import LadderLogic.Proofs.Pattern.Detection
import LadderLogic.Proofs.Rung.Render
import LadderLogic.Proofs.Rung.Series

/-! Chains of permissives: the contacts that a path of a rung leads through to its only coil. A path has nested
and later groups as lines, so that contacts of parallel legs in them count like contacts in series. -/
namespace LadderLogic

namespace Instruction

/-- The first operand, without blanks around it. -/
def target (i : Instruction) : String :=
  Text.trim (i.operands.headD "")

/-- A coil that is energized, with an operand. -/
def isCoil (i : Instruction) : Bool :=
  i.hasOpcode ["OTE", "OTL"] && !i.operands.isEmpty

/-- A contact that has to be closed, on a tag. -/
def isContact (i : Instruction) : Bool :=
  i.hasOpcode ["XIC"] && i.operands.head?.any Operand.isTag

/-- The tags of the contacts on a path. -/
def contactsOn (path : List Instruction) : List String :=
  (path.filter isContact).map target

/-- The coils at which a path arrives. -/
def coilsOn (path : List Instruction) : List String :=
  (path.filter isCoil).map target

theorem length_contactsOn (path : List Instruction) : (contactsOn path).length = path.countP isContact := by
  rw [contactsOn, List.length_map, List.countP_eq_length_filter]

/-- A contact or a coil. -/
def inChain (i : Instruction) : Bool :=
  i.isContact || i.isCoil

theorem inChain_of_isContact {i : Instruction} (h : i.isContact = true) : i.inChain = true := by
  rw [inChain, h, Bool.true_or]

theorem inChain_of_isCoil {i : Instruction} (h : i.isCoil = true) : i.inChain = true := by
  rw [inChain, h, Bool.or_true]

/-- Paths with the same contacts and coils agree on what is looked for among these. -/
theorem filter_eq_of_filter_inChain {q : Instruction → Bool} (hq : ∀ {i}, q i = true → i.inChain = true)
    {path path' : List Instruction} (h : path.filter inChain = path'.filter inChain) :
    path.filter q = path'.filter q := by
  have hfilter : ∀ p : List Instruction, (p.filter inChain).filter q = p.filter q := by
    intro p
    rw [List.filter_filter]
    refine List.filter_congr fun i _ => ?_
    cases hi : q i with
    | false => rfl
    | true => rw [hq hi, Bool.and_self]
  rw [← hfilter path, h, hfilter path']

/-- A part of a path that has its only coil has no other. -/
theorem coilsOn_eq_of_sublist {path path' : List Instruction} (hsub : path'.Sublist path) {coil : Instruction}
    (hcoil : path.filter isCoil = [coil]) (hmem : coil ∈ path') : coilsOn path' = [coil.target] := by
  have hiscoil : coil.isCoil = true := by
    have hfilter : coil ∈ path.filter isCoil := by simp [hcoil]
    exact (List.mem_filter.1 hfilter).2
  have hsub' : (path'.filter isCoil).Sublist [coil] := hcoil ▸ hsub.filter isCoil
  rcases List.sublist_singleton.1 hsub' with hnil | hone
  · have hfilter : coil ∈ path'.filter isCoil := List.mem_filter.2 ⟨hmem, hiscoil⟩
    rw [hnil] at hfilter
    cases hfilter
  · rw [coilsOn, hone]
    rfl

/-- The path has one coil and four contacts or more. -/
def IsPermissive (path : List Instruction) : Prop :=
  path.countP isCoil = 1 ∧ 4 ≤ path.countP isContact

end Instruction

open Instruction (target isCoil isContact contactsOn coilsOn IsPermissive)

namespace Rule.Chain

/-- The chain that a path makes. -/
structure Spans (c : Chain) (path : List Instruction) : Prop where
  contacts : c.contacts = contactsOn path
  coil : coilsOn path = [c.coil]
  enough : 4 ≤ path.countP isContact

theorem map_trim_firsts (opcodes : List String) (path : List Instruction) :
    ((path.filter (·.hasOpcode opcodes)).filterMap (·.operands.head?)).map Text.trim =
      (path.filter fun i => i.hasOpcode opcodes && !i.operands.isEmpty).map target := by
  induction path with
  | nil => rfl
  | cons i path ih =>
    rw [List.filter_cons, List.filter_cons]
    cases i.hasOpcode opcodes with
    | false => simpa using ih
    | true =>
      cases hoperands : i.operands with
      | nil => simpa [hoperands] using ih
      | cons operand operands => simpa [hoperands, target] using ih

theorem filter_isTag_firsts (path : List Instruction) :
    ((path.filter fun i => i.hasOpcode ["XIC"] && !i.operands.isEmpty).map target).filter Operand.isTag =
      contactsOn path := by
  rw [List.filter_map, List.filter_filter, contactsOn]
  refine congrArg (List.map target) (List.filter_congr fun i _ => ?_)
  cases hoperands : i.operands with
  | nil => simp [isContact, hoperands]
  | cons operand operands => simp [isContact, target, hoperands, Bool.and_comm]

theorem ofPath?_eq_some_iff {path : List Instruction} {c : Chain} :
    ofPath? path = some c ↔ c.Spans path := by
  have hcoils : (path.filter fun i => i.hasOpcode ["OTE", "OTL"] && !i.operands.isEmpty).map target =
      coilsOn path := rfl
  unfold ofPath?
  simp only [map_trim_firsts, filter_isTag_firsts, hcoils, Instruction.length_contactsOn]
  constructor
  · intro h
    split at h
    · next coil hcoil =>
      obtain ⟨henough, hc⟩ := Option.ite_none_right_eq_some.1 h
      cases hc
      exact ⟨rfl, hcoil, henough⟩
    · cases h
  · rintro ⟨hcontacts, hcoil, henough⟩
    rw [hcoil]
    simp [henough, ← hcontacts]

theorem isPermissive_iff_exists_spans {path : List Instruction} :
    IsPermissive path ↔ ∃ c : Chain, c.Spans path := by
  constructor
  · rintro ⟨hone, henough⟩
    have hlength : (coilsOn path).length = 1 := by
      rw [coilsOn, List.length_map, ← List.countP_eq_length_filter, hone]
    obtain ⟨coil, hcoil⟩ := List.length_eq_one_iff.1 hlength
    exact ⟨⟨contactsOn path, coil⟩, rfl, hcoil, henough⟩
  · rintro ⟨c, -, hcoil, henough⟩
    refine ⟨?_, henough⟩
    have hlength := congrArg List.length hcoil
    rwa [coilsOn, List.length_map, ← List.countP_eq_length_filter] at hlength

theorem longest_eq_none_iff {chains : List Chain} : longest chains = none ↔ chains = [] := by
  cases chains with
  | nil => simp [longest]
  | cons c chains =>
    unfold longest
    split
    · split <;> simp
    · simp

/-- The longest chain is longer than those before it, and as long as those behind it or longer. -/
theorem exists_append_of_longest {chains : List Chain} {c : Chain} (h : longest chains = some c) :
    ∃ before after, chains = before ++ c :: after ∧
      (∀ d ∈ before, d.contacts.length < c.contacts.length) ∧
      ∀ d ∈ after, d.contacts.length ≤ c.contacts.length := by
  induction chains generalizing c with
  | nil => cases h
  | cons d chains ih =>
    unfold longest at h
    split at h
    · next e hlongest =>
      obtain ⟨before, after, hchains, hbefore, hafter⟩ := ih hlongest
      split at h
      · next hlt =>
        cases h
        exact ⟨d :: before, after, by rw [hchains, List.cons_append],
          List.forall_mem_cons.2 ⟨hlt, hbefore⟩, hafter⟩
      · next hle =>
        cases h
        refine ⟨[], chains, rfl, by simp, ?_⟩
        intro other hother
        have hdle : e.contacts.length ≤ d.contacts.length := by omega
        rw [hchains, List.mem_append, List.mem_cons] at hother
        rcases hother with hmem | rfl | hmem
        · have hlt := hbefore other hmem
          omega
        · exact hdle
        · exact (hafter other hmem).trans hdle
    · next hnone =>
      cases h
      obtain rfl := longest_eq_none_iff.1 hnone
      exact ⟨[], [], rfl, by simp, by simp⟩

theorem Spans.length_contacts {c : Chain} {path : List Instruction} (h : c.Spans path) :
    c.contacts.length = path.countP isContact := by
  rw [h.contacts, Instruction.length_contactsOn]

/-- The chain that is found spans the first of the paths with the most contacts. -/
theorem exists_path_of_longest {paths : List (List Instruction)} {c : Chain}
    (h : longest (paths.filterMap ofPath?) = some c) :
    ∃ earlier path later, paths = earlier ++ path :: later ∧ c.Spans path ∧
      (∀ q ∈ earlier, IsPermissive q → q.countP isContact < path.countP isContact) ∧
      ∀ q ∈ later, IsPermissive q → q.countP isContact ≤ path.countP isContact := by
  obtain ⟨before, after, hchains, hbefore, hafter⟩ := exists_append_of_longest h
  obtain ⟨paths₁, paths₂, rfl, hpaths₁, hpaths₂⟩ := List.filterMap_eq_append_iff.1 hchains
  obtain ⟨skipped, path, later, rfl, hskipped, hpath, hlater⟩ := List.filterMap_eq_cons_iff.1 hpaths₂
  have hspans := ofPath?_eq_some_iff.1 hpath
  refine ⟨paths₁ ++ skipped, path, later, by rw [List.append_assoc], hspans, ?_, ?_⟩
  · intro q hq hpermissive
    obtain ⟨d, hd⟩ := isPermissive_iff_exists_spans.1 hpermissive
    have hsome := ofPath?_eq_some_iff.2 hd
    rcases List.mem_append.1 hq with hq | hq
    · have hmem : d ∈ before := hpaths₁ ▸ List.mem_filterMap.2 ⟨q, hq, hsome⟩
      rw [← hd.length_contacts, ← hspans.length_contacts]
      exact hbefore d hmem
    · rw [hskipped q hq] at hsome
      cases hsome
  · intro q hq hpermissive
    obtain ⟨d, hd⟩ := isPermissive_iff_exists_spans.1 hpermissive
    have hmem : d ∈ after := hlater ▸ List.mem_filterMap.2 ⟨q, hq, ofPath?_eq_some_iff.2 hd⟩
    rw [← hd.length_contacts, ← hspans.length_contacts]
    exact hafter d hmem

theorem isSome_longest_iff {paths : List (List Instruction)} :
    (longest (paths.filterMap ofPath?)).isSome = true ↔ ∃ path ∈ paths, IsPermissive path := by
  constructor
  · intro h
    obtain ⟨c, hc⟩ := Option.isSome_iff_exists.1 h
    obtain ⟨earlier, path, later, hpaths, hspans, -⟩ := exists_path_of_longest hc
    exact ⟨path, by simp [hpaths], isPermissive_iff_exists_spans.2 ⟨c, hspans⟩⟩
  · rintro ⟨path, hpath, hpermissive⟩
    obtain ⟨c, hc⟩ := isPermissive_iff_exists_spans.1 hpermissive
    have hmem : c ∈ paths.filterMap ofPath? :=
      List.mem_filterMap.2 ⟨path, hpath, ofPath?_eq_some_iff.2 hc⟩
    rw [Option.isSome_iff_ne_none]
    intro hnone
    rw [longest_eq_none_iff.1 hnone] at hmem
    cases hmem

end Rule.Chain

theorem Rule.isSome_permissiveChain (v : View) :
    (permissiveChain v).isSome = (Chain.longest (v.paths.filterMap Chain.ofPath?)).isSome := by
  unfold permissiveChain
  cases Chain.longest (v.paths.filterMap Chain.ofPath?) <;> rfl

namespace Pattern
open Rule

theorem exists_chain_of_mem_detect {v : View} {p : Pattern} (h : p ∈ detect v)
    (hkind : p.kind = .permissiveChain) :
    ∃ c, Chain.longest (v.paths.filterMap Chain.ofPath?) = some c ∧ p.tags = c.contacts ++ [c.coil] ∧
      p.description = toString c.contacts.length ++ " permissives must all be true to energize " ++ c.coil ++
        ": " ++ Text.listing c.contacts 6 := by
  obtain ⟨f, hf, hp⟩ := exists_finding_of_mem_detect h
  rw [hkind] at hf
  obtain ⟨c, hc, hfinding⟩ := Option.bind_eq_some_iff.1 hf
  cases hfinding
  rw [hp]
  exact ⟨c, hc, rfl, rfl⟩

/-- The pattern shows on a rung exactly if a path of it has one coil and four contacts or more. Of such
paths it is about the first one with the most contacts: it has their tags in their order and then the
coil, and says how many contacts there are. -/
theorem detect_permissiveChain (v : View) :
    (fired (detect v) .permissiveChain = true ↔ ∃ path ∈ v.paths, IsPermissive path) ∧
      ∀ p ∈ detect v, p.kind = .permissiveChain →
        ∃ earlier path later coil, v.paths = earlier ++ path :: later ∧
          IsPermissive path ∧ path.filter isCoil = [coil] ∧
          (∀ q ∈ earlier, IsPermissive q → q.countP isContact < path.countP isContact) ∧
          (∀ q ∈ later, IsPermissive q → q.countP isContact ≤ path.countP isContact) ∧
          p.tags = (path.filter isContact).map target ++ [coil.target] ∧
          p.description = toString (path.countP isContact) ++ " permissives must all be true to energize " ++
            coil.target ++ ": " ++ Text.listing ((path.filter isContact).map target) 6 := by
  constructor
  · rw [fired_detect_iff, ← Chain.isSome_longest_iff, ← isSome_permissiveChain]
    rfl
  · intro p hp hkind
    obtain ⟨c, hc, htags, hdescription⟩ := exists_chain_of_mem_detect hp hkind
    obtain ⟨earlier, path, later, hpaths, hspans, hearlier, hlater⟩ := Chain.exists_path_of_longest hc
    obtain ⟨coil, hcoil, htarget⟩ := List.map_eq_singleton_iff.1 hspans.coil
    refine ⟨earlier, path, later, coil, hpaths, ?_, hcoil, hearlier, hlater, ?_, ?_⟩
    · exact Chain.isPermissive_iff_exists_spans.2 ⟨c, hspans⟩
    · rw [htags, hspans.contacts, htarget]
      rfl
    · rw [hdescription, hspans.length_contacts, hspans.contacts, htarget]
      rfl

/-- Paths of four contacts, of three and one on a number, of five with two coils, and two of five with one. -/
theorem detect_permissiveChain_equal_legs :
    let rung : Rung :=
      { number := 1
        text := "XIC(P) XIC(Q) XIC(R) [XIC(A) OTE() OTE(X),XIC(5) OTL(Y),XIC(B) XIC(C) OTE(Z) OTE(W)," ++
          "XIC( E ) XIC(F) OTL(V),XIC(G) XIC(H) OTE(U)]" }
    let v := View.ofRung "Main" "R1" rung
    fired (detect v) .permissiveChain = true ∧
      ∃ p ∈ detect v, p.kind = .permissiveChain ∧ p.tags = ["P", "Q", "R", "E", "F", "V"] ∧
        ∃ earlier path later, v.paths = earlier ++ path :: later ∧ IsPermissive path ∧
          (∀ q ∈ earlier, IsPermissive q → q.countP isContact < path.countP isContact) ∧
          (∀ q ∈ later, IsPermissive q → q.countP isContact ≤ path.countP isContact) := by
  intro rung v
  have hfound : (find? v .permissiveChain).map (·.tags) = some ["P", "Q", "R", "E", "F", "V"] := by
    decide +kernel
  obtain ⟨p, hfind, htags⟩ := Option.map_eq_some_iff.1 hfound
  obtain ⟨hp, hkind⟩ := mem_detect_of_find? hfind
  obtain ⟨hfired, hchain⟩ := detect_permissiveChain v
  obtain ⟨earlier, path, later, coil, hpaths, hpath, -, hearlier, hlater, -⟩ := hchain p hp hkind
  have hmem : path ∈ v.paths := by simp [hpaths]
  refine ⟨hfired.2 ⟨path, hmem, hpath⟩, p, hp, hkind, htags, ?_⟩
  exact ⟨earlier, path, later, hpaths, hpath, hearlier, hlater⟩

end Pattern

/-- The instructions of a rung without instructions of its own stand on the paths of its text. -/
theorem View.mem_paths_ofRung {rung : Rung} (h : rung.instructions = []) {program routine : String}
    {path : List Instruction} (hpath : path ∈ (ofRung program routine rung).paths) (hne : path ≠ []) :
    path ∈ (Circuit.ofText rung.text).paths := by
  have hsame := instructions_circuit_ofRung h program routine
  unfold paths at hpath
  split at hpath
  · next hempty =>
    rw [← hsame, List.isEmpty_iff.1 hempty, List.mem_singleton] at hpath
    exact absurd hpath hne
  · next hsome =>
    by_cases hblank : Text.isBlankText rung.text
    · -- Without text and instructions there is no path but the empty one.
      have hnil : (ofRung program routine rung).instructions = [] :=
        (Rung.allInstructions_of_isBlankText hblank).trans h
      rw [hsame, hnil] at hsome
      exact absurd rfl hsome
    · have htext : (ofRung program routine rung).circuit = Circuit.ofText rung.text := by
        simp only [ofRung, textOf, hblank, if_false, Bool.false_eq_true]
      rwa [htext] at hpath

namespace Pattern
open Rule Circuit

/-- A chain of a rung without instructions of its own, with a well-nested text, has four contacts or more
and a coil that stands on a path in series, with some of the contacts and no other ones. The path has all
of them if contacts and coils are in one leg of each group behind the first one and inside its legs. -/
theorem seriesPath_of_permissiveChain {rung : Rung} (hgiven : rung.instructions = [])
    (hnested : Nesting.WellNested rung.text.toList) {program routine : String} {p : Pattern}
    (hp : p ∈ detect (View.ofRung program routine rung)) (hkind : p.kind = .permissiveChain) :
    ∃ contacts coil, p.tags = contacts ++ [coil] ∧ 4 ≤ contacts.length ∧
      (∃ path, SeriesPath rung.text.toList path ∧ coilsOn path = [coil] ∧ (contactsOn path).Sublist contacts) ∧
      (BranchesOnce Instruction.inChain rung.text.toList →
        ∃ path, SeriesPath rung.text.toList path ∧ coilsOn path = [coil] ∧ contactsOn path = contacts) := by
  obtain ⟨c, hc, htags, -⟩ := exists_chain_of_mem_detect hp hkind
  obtain ⟨earlier, line, later, hpaths, hspans, -⟩ := Chain.exists_path_of_longest hc
  obtain ⟨coil, hcoil, htarget⟩ := List.map_eq_singleton_iff.1 hspans.coil
  have hmem : coil ∈ line := by
    have hfilter : coil ∈ line.filter isCoil := by simp [hcoil]
    exact (List.mem_filter.1 hfilter).1
  have hview : line ∈ (View.ofRung program routine rung).paths := by simp [hpaths]
  have hline := View.mem_paths_ofRung hgiven hview (List.ne_nil_of_mem hmem)
  refine ⟨c.contacts, c.coil, htags, hspans.length_contacts ▸ hspans.enough, ?_, ?_⟩
  · obtain ⟨path, hpath, hcoilMem, hsub⟩ := exists_seriesPath_of_mem_paths hnested hline hmem
    refine ⟨path, hpath, ?_, ?_⟩
    · rw [Instruction.coilsOn_eq_of_sublist hsub hcoil hcoilMem, htarget]
    · rw [hspans.contacts]
      exact (hsub.filter isContact).map target
  · intro honce
    obtain ⟨path, hpath, hfilter⟩ := honce.exists_seriesPath hnested hline
    refine ⟨path, hpath, ?_, ?_⟩
    · rw [coilsOn, Instruction.filter_eq_of_filter_inChain Instruction.inChain_of_isCoil hfilter]
      exact hspans.coil
    · rw [contactsOn, Instruction.filter_eq_of_filter_inChain Instruction.inChain_of_isContact hfilter]
      exact hspans.contacts.symm

theorem seriesPath_of_permissiveChain_nested :
    let rung : Rung := { number := 1, text := "XIC(A) [XIC(B) XIC(C) [XIC(D),Data] OTE(X),XIC(E)] [RES(T),AFI()]" }
    let v := View.ofRung "Main" "R1" rung
    (Nesting.WellNested rung.text.toList ∧ BranchesOnce Instruction.inChain rung.text.toList ∧
        ∃ p ∈ detect v, p.kind = .permissiveChain) ∧
      ∃ path, SeriesPath rung.text.toList path ∧ coilsOn path = ["X"] ∧
        contactsOn path = ["A", "B", "C", "D"] := by
  intro rung v
  have hnested : Nesting.WellNested rung.text.toList := by decide +kernel
  have honce : BranchesOnce Instruction.inChain rung.text.toList := by
    intro x hx
    have hsplit : split? rung.text.toList = some ⟨"XIC(A) ".toList,
        "XIC(B) XIC(C) [XIC(D),Data] OTE(X),XIC(E)".toList, " [RES(T),AFI()]".toList⟩ := by decide +kernel
    have hlegs : Delimited.splitTopLevel "XIC(B) XIC(C) [XIC(D),Data] OTE(X),XIC(E)".toList =
        ["XIC(B) XIC(C) [XIC(D),Data] OTE(X)".toList, "XIC(E)".toList] := by decide +kernel
    have hnested : Delimited.splitTopLevel "XIC(D),Data".toList = [] ++ "XIC(D)".toList :: ["Data".toList] := by
      decide +kernel
    have hbehind : Delimited.splitTopLevel "RES(T),AFI()".toList = [] ++ "RES(T)".toList :: ["AFI()".toList] := by
      decide +kernel
    cases hsplit.symm.trans hx
    rw [hlegs, List.forall_mem_cons, List.forall_mem_singleton]
    refine ⟨?_, ?_, .line (by decide +kernel)⟩
    · have hgroup : split? " [RES(T),AFI()]".toList = some ⟨[' '], "RES(T),AFI()".toList, []⟩ := by decide +kernel
      exact .group hgroup hbehind (by decide +kernel) (.line (by decide +kernel)) (.line rfl)
    · have hgroup : split? "XIC(B) XIC(C) [XIC(D),Data] OTE(X)".toList =
          some ⟨"XIC(B) XIC(C) ".toList, "XIC(D),Data".toList, " OTE(X)".toList⟩ := by decide +kernel
      exact .group hgroup hnested (by decide +kernel) (.line (by decide +kernel)) (.line (by decide +kernel))
  have hfound : (find? v .permissiveChain).map (·.tags) = some (["A", "B", "C", "D"] ++ ["X"]) := by
    decide +kernel
  obtain ⟨p, hfind, htags⟩ := Option.map_eq_some_iff.1 hfound
  obtain ⟨hp, hkind⟩ := mem_detect_of_find? hfind
  refine ⟨⟨hnested, honce, p, hp, hkind⟩, ?_⟩
  obtain ⟨contacts, coil, htags', -, -, hseries⟩ := seriesPath_of_permissiveChain rfl hnested hp hkind
  obtain ⟨rfl, hcoil⟩ := List.append_inj' (htags'.symm.trans htags) rfl
  cases hcoil
  exact hseries honce

/-- Contacts of parallel legs make a chain if they are behind the first group, where a path meets one of
them only. -/
theorem permissiveChain_of_parallel_contacts :
    let rung : Rung := { number := 1, text := "[XIC(A),XIC(B)] [XIC(C),XIC(D),XIC(E)] OTE(X)" }
    (rung.instructions = [] ∧ Nesting.WellNested rung.text.toList ∧
        ∃ p ∈ detect (View.ofRung "Main" "R1" rung), p.kind = .permissiveChain ∧
          p.tags = ["A", "C", "D", "E", "X"]) ∧
      ∀ path, SeriesPath rung.text.toList path → path.countP isContact = 2 := by
  intro rung
  have hfound : (find? (View.ofRung "Main" "R1" rung) .permissiveChain).map (·.tags) =
      some ["A", "C", "D", "E", "X"] := by decide +kernel
  obtain ⟨p, hfind, htags⟩ := Option.map_eq_some_iff.1 hfound
  obtain ⟨hp, hkind⟩ := mem_detect_of_find? hfind
  refine ⟨⟨rfl, by decide +kernel, p, hp, hkind, htags⟩, ?_⟩
  intro path hpath
  have hfirst : split? rung.text.toList =
      some ⟨[], "XIC(A),XIC(B)".toList, " [XIC(C),XIC(D),XIC(E)] OTE(X)".toList⟩ := by decide +kernel
  have hsecond : split? " [XIC(C),XIC(D),XIC(E)] OTE(X)".toList =
      some ⟨[' '], "XIC(C),XIC(D),XIC(E)".toList, " OTE(X)".toList⟩ := by decide +kernel
  have hlegs : ∀ leg ∈ Delimited.splitTopLevel "XIC(A),XIC(B)".toList ++
      Delimited.splitTopLevel "XIC(C),XIC(D),XIC(E)".toList,
        split? leg = none ∧ (Instruction.allIn leg).countP isContact = 1 := by decide +kernel
  have hrest : split? " OTE(X)".toList = none ∧ (Instruction.allIn " OTE(X)".toList).countP isContact = 0 := by
    decide +kernel
  obtain ⟨leg, hleg, p, q, hp, hq, rfl⟩ := (seriesPath_iff_of_split? hfirst).1 hpath
  obtain ⟨leg', hleg', p', q', hp', hq', rfl⟩ := (seriesPath_iff_of_split? hsecond).1 hq
  obtain ⟨hline, hone⟩ := hlegs leg (List.mem_append_left _ hleg)
  obtain ⟨hline', hone'⟩ := hlegs leg' (List.mem_append_right _ hleg')
  rw [(seriesPath_iff_of_split?_eq_none hline).1 hp, (seriesPath_iff_of_split?_eq_none hline').1 hp',
    (seriesPath_iff_of_split?_eq_none hrest.1).1 hq']
  simp only [List.countP_append, hone, hone', hrest.2]
  rfl

end Pattern

end LadderLogic

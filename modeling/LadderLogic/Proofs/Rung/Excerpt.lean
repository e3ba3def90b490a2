import LadderLogic.Proofs.Rung.Grammar
import LadderLogic.Proofs.Rung.Malformed
import LadderLogic.Proofs.Rung.Render
import LadderLogic.Proofs.Tag.Related

/-! What is found in a text stands in it, without a break: parts, bodies of calls, operands, groups and tags. -/
namespace LadderLogic

theorem infix_intercalate {separator part : List α} {parts : List (List α)} (h : part ∈ parts) :
    part <:+: separator.intercalate parts := by
  induction parts with
  | nil => cases h
  | cons first parts ih =>
    cases parts with
    | nil =>
      obtain rfl := List.mem_singleton.1 h
      rw [List.intercalate_singleton]
    | cons next parts =>
      rw [List.intercalate_cons_cons]
      rcases List.mem_cons.1 h with rfl | hmem
      · rw [List.append_assoc]
        exact (List.prefix_append _ _).isInfix
      · exact (ih hmem).trans (List.suffix_append _ _).isInfix

/-- A part stands behind a separator, or behind what stands before the first part. -/
theorem cons_infix_intercalate (opener : α) {separator : α} {part : List α} {parts : List (List α)}
    (h : part ∈ parts) :
    opener :: part <:+: opener :: [separator].intercalate parts ∨
      separator :: part <:+: [separator].intercalate parts := by
  induction parts generalizing opener with
  | nil => cases h
  | cons first parts ih =>
    cases parts with
    | nil =>
      obtain rfl := List.mem_singleton.1 h
      rw [List.intercalate_singleton]
      exact .inl (List.infix_refl _)
    | cons next parts =>
      rw [List.intercalate_cons_cons, List.append_assoc, List.singleton_append]
      rcases List.mem_cons.1 h with rfl | hmem
      · exact .inl (List.prefix_append (opener :: part) _).isInfix
      · right
        have hrest : separator :: part <:+: separator :: [separator].intercalate (next :: parts) := by
          rcases ih separator hmem with hopen | hlater
          · exact hopen
          · exact hlater.trans (List.suffix_cons _ _).isInfix
        exact hrest.trans (List.suffix_append _ _).isInfix

theorem Delimited.infix_of_mem_splitTopLevel {cs part : List Char} (h : part ∈ splitTopLevel cs) :
    part <:+: cs := by
  have hinfix : part <:+: [','].intercalate (splitTopLevel cs) := infix_intercalate h
  rwa [intercalate_splitTopLevel] at hinfix

namespace Operand

/-- What an operand can stand right behind. -/
def isLead (c : Char) : Bool :=
  c == '(' || c == ',' || Text.isBlank c

/-- The operand is an excerpt of the text, right behind a parenthesis, a comma or a blank. -/
def StandsIn (operand text : List Char) : Prop :=
  ∃ c, isLead c = true ∧ c :: operand <:+: text

namespace StandsIn

variable {operand text : List Char}

theorem isInfix (h : StandsIn operand text) : operand <:+: text := by
  obtain ⟨c, -, hexcerpt⟩ := h
  exact (List.suffix_cons c operand).isInfix.trans hexcerpt

theorem trans (h : StandsIn operand text) {text' : List Char} (hexcerpt : text <:+: text') :
    StandsIn operand text' := by
  obtain ⟨c, hlead, hcons⟩ := h
  exact ⟨c, hlead, hcons.trans hexcerpt⟩

theorem trimChars (h : StandsIn operand text) : StandsIn (Text.trimChars operand) text := by
  obtain ⟨c, hlead, hexcerpt⟩ := h
  obtain ⟨a, b, hoperand, hblank, -⟩ := Text.exists_blank_append_trimChars operand
  -- The last of the blanks before the operand, if there are any, takes the place of `c`.
  rcases List.eq_nil_or_concat' a with rfl | ⟨a, blank, rfl⟩
  · have hpre : c :: Text.trimChars operand <+: c :: operand := ⟨b, congrArg (c :: ·) hoperand.symm⟩
    exact ⟨c, hlead, hpre.isInfix.trans hexcerpt⟩
  · have hmid : blank :: Text.trimChars operand <:+: c :: operand := by
      refine ⟨c :: a, b, ?_⟩
      conv => rhs; rw [hoperand]
      simp
    have hisBlank : Text.isBlank blank = true := hblank blank (by simp)
    exact ⟨blank, by rw [isLead, hisBlank, Bool.or_true], hmid.trans hexcerpt⟩

theorem intercalate {parts : List (List Char)} (h : operand ∈ parts) :
    StandsIn operand ('(' :: [','].intercalate parts) := by
  rcases cons_infix_intercalate '(' h with hopen | hcomma
  · exact ⟨'(', rfl, hopen⟩
  · exact ⟨',', rfl, hcomma.trans (List.suffix_cons _ _).isInfix⟩

end StandsIn

end Operand

namespace Call

theorem standsIn_of_mem_operands {cs : List Char} {operand : String} (h : operand ∈ operands cs) :
    Operand.StandsIn operand.toList ('(' :: cs) := by
  have hpart : operand.toList ∈ operandParts cs := by
    rw [← map_toList_operands]
    exact List.mem_map_of_mem h
  obtain ⟨part, hmem, htrim⟩ := List.mem_map.1 (List.mem_of_mem_filter hpart)
  have hstands : Operand.StandsIn part ('(' :: [','].intercalate (Delimited.splitTopLevel cs)) :=
    Operand.StandsIn.intercalate hmem
  rw [Delimited.intercalate_splitTopLevel] at hstands
  rw [← htrim]
  exact hstands.trimChars

theorem Layout.infix_body_of_mem_calls {l : Layout} {c : Call} (h : c ∈ l.calls) : '(' :: c.body <:+: l.text := by
  induction l with
  | stop gap => cases h
  | unclosed gap name body =>
    obtain rfl := List.mem_singleton.1 h
    exact (List.suffix_append _ _).isInfix
  | call gap name body rest ih =>
    have hcall : '(' :: (body ++ ')' :: rest.text) <:+ (call gap name body rest).text :=
      List.suffix_append _ _
    rcases List.mem_cons.1 h with rfl | hmem
    · exact (List.prefix_append ('(' :: body) _).isInfix.trans hcall.isInfix
    · have htail : rest.text <:+ '(' :: (body ++ ')' :: rest.text) :=
        (List.suffix_cons ')' _).trans (List.suffix_append ('(' :: body) _)
      exact (ih hmem).trans (htail.trans hcall).isInfix

end Call

namespace Instruction

theorem standsIn_of_mem_allIn {cs : List Char} {i : Instruction} (h : i ∈ allIn cs) {operand : String}
    (hoperand : operand ∈ i.operands) : Operand.StandsIn operand.toList cs := by
  obtain ⟨l, hvalid, rfl⟩ := Call.Layout.exists_valid cs
  rw [allIn, hvalid.all_text] at h
  obtain ⟨c, hc, rfl⟩ := List.mem_map.1 h
  exact (Call.standsIn_of_mem_operands hoperand).trans (Call.Layout.infix_body_of_mem_calls hc)

theorem standsIn_render {i : Instruction} {operand : String} (h : operand ∈ i.operands) :
    Operand.StandsIn operand.toList i.render.toList := by
  have hcall : '(' :: [','].intercalate (i.operands.map String.toList) <:+: i.render.toList :=
    ⟨i.kind.toList, [')'], by rw [toList_render, List.append_assoc, List.cons_append]⟩
  exact (Operand.StandsIn.intercalate (List.mem_map_of_mem h)).trans hcall

end Instruction

namespace Circuit

theorem infix_of_split? {cs : List Char} {x : Split} (h : split? cs = some x) :
    x.before <:+: cs ∧ x.group <:+: cs ∧ x.after <:+: cs := by
  have hstart : (Place.line 0).Clear (.outside []) cs := Nat.zero_le 0
  obtain ⟨rest, rfl, -, hgroup⟩ := cuts_of_splitFrom h hstart
  have hrest : rest <:+ x.before ++ '[' :: rest := (List.suffix_cons '[' rest).trans (List.suffix_append _ _)
  refine ⟨(List.prefix_append _ _).isInfix, ?_⟩
  rcases hgroup with hclosing | ⟨-, hg, ha⟩
  · have hsplit := Delimited.eq_append_of_closing hclosing
    have hgroup : x.group <+: rest := ⟨_, hsplit.symm⟩
    have hafter : x.after <:+ rest := ⟨x.group ++ [']'], by simp [hsplit]⟩
    exact ⟨hgroup.isInfix.trans hrest.isInfix, (hafter.trans hrest).isInfix⟩
  · rw [hg, ha]
    exact ⟨hrest.isInfix, List.nil_infix⟩

theorem standsIn_of_mem_ofText {text operand : String} {i : Instruction} (h : i ∈ (ofText text).instructions)
    (hoperand : operand ∈ i.operands) : Operand.StandsIn operand.toList text.toList := by
  unfold ofText ofChars instructions at h
  cases hsplit : split? text.toList with
  | none =>
    simp only [hsplit, List.flatMap_nil, List.append_nil] at h
    exact Instruction.standsIn_of_mem_allIn h hoperand
  | some x =>
    obtain ⟨hbefore, hgroup, hafter⟩ := infix_of_split? hsplit
    simp only [hsplit, flatMap_instructions_branches, List.map_flatMap, List.mem_append, List.mem_flatMap] at h
    rcases h with (h | ⟨part, hpart, h⟩) | h
    · exact (Instruction.standsIn_of_mem_allIn h hoperand).trans hbefore
    · have hleg : part <:+: text.toList := (Delimited.infix_of_mem_splitTopLevel hpart).trans hgroup
      exact (Instruction.standsIn_of_mem_allIn h hoperand).trans hleg
    · exact (Instruction.standsIn_of_mem_allIn h hoperand).trans hafter

end Circuit

namespace View

/-- The text of a rung without instructions of its own is the given one, or the rung has no tags. -/
theorem text_ofRung_of_mem_tags {rung : Rung} (h : rung.instructions = []) {program routine tag : String}
    (htag : tag ∈ (ofRung program routine rung).tags) : (ofRung program routine rung).text = rung.text := by
  by_cases hblank : Text.isBlankText rung.text
  · have hnil : rung.allInstructions = [] := (Rung.allInstructions_of_isBlankText hblank).trans h
    obtain ⟨usage, husage⟩ := mem_tags.1 htag
    rw [tagsFor_ofRung, hnil] at husage
    cases husage
  · exact if_neg hblank

/-- A tag is an operand of an instruction, without the blanks around it. -/
theorem exists_operand_of_mem_tags {program routine tag : String} {rung : Rung}
    (h : tag ∈ (ofRung program routine rung).tags) :
    ∃ i ∈ rung.allInstructions, ∃ operand ∈ i.operands, Text.trim operand = tag := by
  obtain ⟨usage, husage⟩ := mem_tags.1 h
  rw [tagsFor_ofRung] at husage
  obtain ⟨i, hi, operand, _, hused, -, -, htrim⟩ := mem_tagsUsed.1 husage
  obtain ⟨n, hn, -⟩ := Instruction.mem_usedOperands.1 hused
  exact ⟨i, hi, operand, List.fst_mem_of_mem_zipIdx hn, htrim⟩

/-- The tags stand in the text of the view if the text tells the instructions or was made from them. -/
theorem standsIn_text_of_mem_tags {rung : Rung} (h : rung.instructions = [] ∨ Text.isBlankText rung.text = true)
    {program routine tag : String} (htag : tag ∈ (ofRung program routine rung).tags) :
    Operand.StandsIn tag.toList (ofRung program routine rung).text.toList := by
  obtain ⟨i, hi, operand, hoperand, rfl⟩ := exists_operand_of_mem_tags htag
  rw [Text.trim, String.toList_ofList]
  refine Operand.StandsIn.trimChars ?_
  rcases h with hnone | hblank
  · rw [text_ofRung_of_mem_tags hnone htag]
    rw [Rung.allInstructions, hnone] at hi
    exact Circuit.standsIn_of_mem_ofText hi hoperand
  · have htext : (ofRung program routine rung).text.toList =
        [' '].intercalate ((rung.allInstructions.map Instruction.render).map String.toList) := by
      simp only [ofRung, textOf, if_pos hblank]
      exact Text.toList_joined " " _
    have hrender : i.render.toList ∈ (rung.allInstructions.map Instruction.render).map String.toList :=
      List.mem_map_of_mem (List.mem_map_of_mem hi)
    rw [htext]
    exact (Instruction.standsIn_render hoperand).trans (infix_intercalate hrender)

end View

end LadderLogic

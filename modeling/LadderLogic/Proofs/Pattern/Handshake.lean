import LadderLogic.Proofs.Pattern.Detection
import LadderLogic.Proofs.Rung.Excerpt
import LadderLogic.Proofs.Vocabulary.Occurrence

/-! Handshakes, and the tags that ask and answer. All words of command and of feedback but one have no edges, so
that a tag brings its word into the text of the rung. A tag that ends in `FB` does not. -/
namespace LadderLogic

/-- The tags of a rung without instructions of its own are excerpts of its text. -/
theorem View.infix_of_mem_tags {rung : Rung} (h : rung.instructions = []) {program routine tag : String}
    (htag : tag ∈ (ofRung program routine rung).tags) : tag.toList <:+: rung.text.toList := by
  have hstands := standsIn_text_of_mem_tags (.inl h) htag
  rw [text_ofRung_of_mem_tags h htag] at hstands
  exact hstands.isInfix

namespace Vocabulary

theorem free_command : command.free = command := by
  decide

theorem edged_feedback : feedback.edged = [Term.ending "FB"] := by
  decide

theorem recognizes_feedback_iff {name : String} :
    feedback.recognizes name = true ↔
      feedback.free.recognizes name = true ∨ "FB".toList <:+ name.toList.map Text.fold := by
  rw [recognizes_eq_free_or_edged, Bool.or_eq_true, edged_feedback, ← Term.occursIn_ending_iff]
  simp [recognizes]

end Vocabulary

theorem Rule.isSome_handshake (v : View) :
    (handshake v).isSome = (Vocabulary.command.recognizes v.text && Vocabulary.feedback.recognizes v.text) := by
  unfold handshake
  cases Vocabulary.command.recognizes v.text && Vocabulary.feedback.recognizes v.text <;> rfl

namespace Pattern

/-- A rung without instructions of its own, with a tag of command and a tag of feedback, shows the pattern
if a word without edges makes the tag one of feedback. It does not show the pattern exactly if the tag ends
in `FB`, the text does not, and no other word of feedback is in the text. -/
theorem fired_handshake_of_tags {rung : Rung} (hgiven : rung.instructions = [])
    {program routine request answer : String}
    (hrequest : request ∈ (View.ofRung program routine rung).tags)
    (hcommand : Vocabulary.command.recognizes request = true)
    (hanswer : answer ∈ (View.ofRung program routine rung).tags)
    (hfeedback : Vocabulary.feedback.recognizes answer = true) :
    (Vocabulary.feedback.free.recognizes answer = true →
        fired (detect (View.ofRung program routine rung)) .handshake = true) ∧
      (fired (detect (View.ofRung program routine rung)) .handshake = false ↔
        "FB".toList <:+ answer.toList.map Text.fold ∧ ¬ "FB".toList <:+ rung.text.toList.map Text.fold ∧
          Vocabulary.feedback.free.recognizes rung.text = false) := by
  have hcommandText : Vocabulary.command.recognizes rung.text = true := by
    rw [← Vocabulary.free_command] at hcommand ⊢
    exact Vocabulary.recognizes_free_of_infix (View.infix_of_mem_tags hgiven hrequest) hcommand
  have hfired : fired (detect (View.ofRung program routine rung)) .handshake = true ↔
      Vocabulary.feedback.free.recognizes rung.text = true ∨ "FB".toList <:+ rung.text.toList.map Text.fold := by
    have hrule := Rule.isSome_handshake (View.ofRung program routine rung)
    rw [View.text_ofRung_of_mem_tags hgiven hanswer, hcommandText, Bool.true_and] at hrule
    rw [fired_detect_iff, ← Vocabulary.recognizes_feedback_iff, ← hrule]
    rfl
  have hbrings : Vocabulary.feedback.free.recognizes answer = true →
      Vocabulary.feedback.free.recognizes rung.text = true :=
    Vocabulary.recognizes_free_of_infix (View.infix_of_mem_tags hgiven hanswer)
  refine ⟨fun hfree => hfired.2 (.inl (hbrings hfree)), ?_⟩
  rw [← Bool.not_eq_true, hfired, not_or, Bool.not_eq_true]
  constructor
  · rintro ⟨hfree, hend⟩
    refine ⟨?_, hend, hfree⟩
    rcases Vocabulary.recognizes_feedback_iff.1 hfeedback with hanswerFree | hanswerEnd
    · rw [hbrings hanswerFree] at hfree
      cases hfree
    · exact hanswerEnd
  · rintro ⟨-, hend, hfree⟩
    exact ⟨hfree, hend⟩

theorem fired_handshake_of_tags_folded :
    let rung : Rung := { number := 1, text := "[XIC(robot_req),XIC(B)] XIO( Drive_fb.1 ) OTE(Y1)" }
    let v := View.ofRung "Main" "R1" rung
    ("robot_req" ∈ v.tags ∧ Vocabulary.command.recognizes "robot_req" = true ∧ "Drive_fb.1" ∈ v.tags ∧
        Vocabulary.feedback.recognizes "Drive_fb.1" = true) ∧
      fired (detect v) .handshake = true := by
  intro rung v
  have hrequest : "robot_req" ∈ v.tags ∧ Vocabulary.command.recognizes "robot_req" = true := by decide +kernel
  have hanswer : "Drive_fb.1" ∈ v.tags ∧ Vocabulary.feedback.recognizes "Drive_fb.1" = true := by decide +kernel
  have hfree : Vocabulary.feedback.free.recognizes "Drive_fb.1" = true := by decide +kernel
  refine ⟨⟨hrequest.1, hrequest.2, hanswer⟩, ?_⟩
  exact (fired_handshake_of_tags rfl hrequest.1 hrequest.2 hanswer.1 hanswer.2).1 hfree

/-- The rule does not see the feedback in a tag that ends in `FB`, since the text goes on behind the tag. -/
theorem not_fired_handshake_of_ending :
    let rung : Rung := { number := 1, text := "XIC(Valve_Cmd) XIC(ValveFB) OTE(Y1)" }
    let v := View.ofRung "Main" "R1" rung
    (rung.instructions = [] ∧ "Valve_Cmd" ∈ v.tags ∧ Vocabulary.command.recognizes "Valve_Cmd" = true ∧
        "ValveFB" ∈ v.tags ∧ Vocabulary.feedback.recognizes "ValveFB" = true) ∧
      fired (detect v) .handshake = false := by
  decide +kernel

end Pattern

end LadderLogic

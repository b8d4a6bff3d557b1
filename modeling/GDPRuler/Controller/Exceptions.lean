import GDPRuler.Controller.ClientTexts
import GDPRuler.Controller.Connection

/-!
# Texts that stop the controller

Nothing in `handle_connection` catches what the two constructors raise, and an
exception that leaves a thread ends the process, with the connections of all
clients.  So whether a client can stop the controller is whether it can send a
text that is not accepted: `not_escapes_iff` says this of every stream of bytes.

The parser does have a command for what it cannot read, `invalid`, and the loop
an answer for it; but the assignment stands behind a `throw`.
-/

namespace GDPRuler.Controller

variable {σ : Type} (env : Environment σ) (around : Nat → Surroundings)

/-- An exception of a constructor has left the connection. -/
def Ending.Escapes (ending : Ending) : Prop :=
  ∃ e, ending = .raised .policy e ∨ ending = .raised .query e

/-- The texts of a connection are accepted: the first one as a policy, unless
it could not be acknowledged and is not read, and the others as queries. -/
def Accepted (acknowledged : Bool) : List Str → Prop
  | [] => True
  | policy :: requests =>
      (acknowledged = true → DefaultPolicy.PolicyText policy) ∧
        ∀ request ∈ requests, Query.QueryText request

/-! ## One text -/

section Handle

variable {text : Str} {s : Session σ} {a : Surroundings}

/-- A text that is no query raises. -/
theorem handle_of_not_queryText {policy : DefaultPolicy}
    (hPolicy : s.policy = some policy) (hFits : text.length < npos)
    (hText : ¬ Query.QueryText text) :
    ∃ e, (s.handle env a text).1 = .raise .query e := by
  rw [← Query.ofText_isOk_iff hFits] at hText
  unfold Session.handle
  rw [hPolicy]
  cases hParsed : Query.ofText text with
  | error e => exact ⟨e, rfl⟩
  | ok q => exact absurd ⟨q, hParsed⟩ hText

/-- A query raises in its handler at most, and the policy stays. -/
theorem handle_of_queryText {policy : DefaultPolicy}
    (hPolicy : s.policy = some policy) (hFits : text.length < npos)
    (hText : Query.QueryText text) :
    (∀ source e, (s.handle env a text).1 = .raise source e →
        source = .handler) ∧
      (s.handle env a text).2.policy = some policy := by
  obtain ⟨q, hParsed⟩ := (Query.ofText_isOk_iff hFits).mpr hText
  unfold Session.handle
  rw [hPolicy]
  simp only [hParsed]
  split
  · exact ⟨fun source e h => (nomatch h), hPolicy⟩
  · cases World.serve env ⟨q, policy, a.readings⟩ s.world with
    | mk outcome w =>
        cases outcome with
        | error e =>
            refine ⟨fun source e h => ?_, rfl⟩
            cases h
            rfl
        | ok response =>
            simp only
            split
            · exact ⟨fun source e h => (nomatch h), rfl⟩
            split
            · exact ⟨fun source e h => (nomatch h), rfl⟩
            · exact ⟨fun source e h => (nomatch h), rfl⟩

end Handle

theorem not_escapes_closed : ¬ Ending.Escapes .closed := by
  rintro ⟨e, h | h⟩ <;> cases h

theorem not_escapes_running : ¬ Ending.Escapes .running := by
  rintro ⟨e, h | h⟩ <;> cases h

/-! ## Connections -/

/-- With a policy the connection goes on as long as the texts are queries. -/
theorem not_escapes_converse_iff {policy : DefaultPolicy} (n i : Nat)
    (stream : Stream) {s : Session σ} (hPolicy : s.policy = some policy) :
    ¬ (converse env around n i stream s).ending.Escapes ↔
      ∀ text ∈ (converse env around n i stream s).texts,
        Query.QueryText text := by
  induction n generalizing i stream s with
  | zero =>
      exact iff_of_true not_escapes_running fun text hMem => nomatch hMem
  | succ n ih =>
      rw [converse]
      cases hReceived : (receiveText (around i).unset stream).1.text with
      | none =>
          refine iff_of_true not_escapes_closed ?_
          simp [Conversation.texts, hReceived]
      | some text =>
          have hFits : text.length < npos :=
            Nat.lt_of_le_of_lt (length_text_le hReceived) (by decide)
          simp only
          by_cases hText : Query.QueryText text
          · obtain ⟨hRaise, hNext⟩ := handle_of_queryText env
              (a := around i) hPolicy hFits hText
            cases hVerdict : (s.handle env (around i) text).1 with
            | leave =>
                refine iff_of_true not_escapes_closed ?_
                simpa [Conversation.texts, hReceived] using hText
            | raise source e =>
                obtain rfl := hRaise source e hVerdict
                refine iff_of_true ?_ ?_
                · rintro ⟨e, h | h⟩ <;> cases h
                · simpa [Conversation.texts, hReceived] using hText
            | goOn =>
                simp only [Conversation.texts, List.filterMap_cons, hReceived,
                  List.forall_mem_cons, hText, true_and]
                exact ih (i + 1) _ hNext
          · obtain ⟨e, hRaise⟩ := handle_of_not_queryText env
              (a := around i) hPolicy hFits hText
            rw [hRaise]
            refine iff_of_false (fun hNot => hNot ⟨e, .inr rfl⟩) ?_
            simpa [Conversation.texts, hReceived] using hText

end GDPRuler.Controller

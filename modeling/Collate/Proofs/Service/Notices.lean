import Collate.Proofs.Service.Actions

/-!
What a procedure announces, and when. Events end up in one list, in which nothing tells what
the store was like when an event was put in. The notices of a run are the same events, each
with the store at that moment. Most procedures are mute, and whatever comes after a mute one
announces all there is.
-/

namespace Collate

/-- An event, and the store when it was announced. -/
structure Notice where
  event : ProgressEvent
  store : Store

namespace Procedure

variable {α β : Type} {p : Procedure α} {f : α → Procedure β}

/-- The notices of a single action: what it puts at the end of the events. -/
def newNotices (d d' : Desk) : List Notice :=
  (d'.events.drop d.events.length).map fun e => ⟨e, d'.store⟩

def notices : Procedure α → Desk → List Notice
  | .done _, _ => []
  | .act action next, d => newNotices d (action d).2 ++ (next (action d).1).notices (action d).2

theorem notices_bind (p : Procedure α) (f : α → Procedure β) (d : Desk) :
    (p >>= f).notices d = p.notices d ++ match p.run d with
      | (.ok a, d') => (f a).notices d'
      | (.error _, _) => [] := by
  change (p.bind f).notices d = _
  induction p generalizing d with
  | done result =>
    cases result with
    | ok a => rfl
    | error fault => rfl
  | act action next ih => simp only [bind, notices, run, ih, List.append_assoc]

/-! Procedures that only add events. -/

abbrev Appends (p : Procedure α) : Prop := p.Acts fun d d' => d.events <+: d'.events

/-- The events after a run are those before it and those of its notices. -/
theorem Appends.events (h : p.Appends) (d : Desk) :
    (p.run d).2.events = d.events ++ (p.notices d).map (·.event) := by
  induction p generalizing d with
  | done result => exact (List.append_nil _).symm
  | act action next ih =>
    obtain ⟨added, hadded⟩ := (h d).1
    have hnew : (newNotices d (action d).2).map (·.event) = added := by
      simp [newNotices, ← hadded, Function.comp_def]
    rw [run, notices, List.map_append, hnew, ← List.append_assoc, hadded]
    exact ih _ (h d).2 _

/-! Mute procedures. -/

abbrev Mute (p : Procedure α) : Prop := p.Acts fun d d' => d'.events = d.events

theorem Mute.notices (h : p.Mute) (d : Desk) : p.notices d = [] := by
  induction p generalizing d with
  | done result => rfl
  | act action next ih =>
    rw [Procedure.notices, ih _ (h d).2, newNotices, (h d).1, List.drop_length]
    rfl

/-- After a mute procedure only what comes next announces anything. -/
theorem Mute.notices_bind (h : p.Mute) {d d' : Desk} {a : α} (hrun : p.run d = (.ok a, d')) :
    (p >>= f).notices d = (f a).notices d' := by
  rw [Procedure.notices_bind, h.notices, hrun]
  rfl

/-- A mute procedure that fails has nothing announced. -/
theorem Mute.notices_bind_error (h : p.Mute) {d d' : Desk} {fault : ServiceFault}
    (hrun : p.run d = (.error fault, d')) : (p >>= f).notices d = [] := by
  rw [Procedure.notices_bind, h.notices, hrun]
  rfl

/-- What a mute procedure makes of a value is not announced. -/
theorem notices_bind_mute (p : Procedure α) (hf : ∀ a, (f a).Mute) (d : Desk) :
    (p >>= f).notices d = p.notices d := by
  rw [Procedure.notices_bind]
  cases p.run d with
  | mk r e =>
    cases r with
    | ok a =>
      dsimp only
      rw [(hf a).notices, List.append_nil]
    | error fault => exact List.append_nil _

theorem notices_bind_pure (p : Procedure α) (g : α → β) (d : Desk) :
    (p >>= fun a => pure (g a)).notices d = p.notices d :=
  notices_bind_mute (f := fun a => pure (g a)) p (fun _ => trivial) d

/-- What is announced after a mute procedure is announced if that gives a value. -/
theorem Mute.mem_notices_bind (h : p.Mute) {d : Desk} {n : Notice}
    (hn : n ∈ (p >>= f).notices d) :
    ∃ a d', p.run d = (.ok a, d') ∧ n ∈ (f a).notices d' := by
  rw [Procedure.notices_bind, h.notices, List.nil_append] at hn
  cases hrun : p.run d with
  | mk r d' =>
    rw [hrun] at hn
    cases r with
    | ok a => exact ⟨a, d', rfl, hn⟩
    | error fault => cases hn

theorem Performs.appends {may : Store.Call → Prop} {speaks : Prop} (h : p.Performs may speaks) :
    p.Appends := by
  refine h.mono fun d d' hdeed => ?_
  rcases hdeed.events with hsame | ⟨-, event, hone⟩
  · exact hsame ▸ List.prefix_refl _
  · exact hone ▸ List.prefix_append _ _

theorem Performs.mute {may : Store.Call → Prop} {speaks : Prop} (h : p.Performs may speaks)
    (hspeaks : ¬ speaks) : p.Mute :=
  h.mono fun _ _ hdeed => hdeed.events.resolve_right fun hone => hspeaks hone.1

theorem Mute.of (h : p.Harmless) : p.Mute := h.mute not_false

/-- An operation of the store, whether it takes place or not. -/
theorem Mute.store (op : StoreOp α) : (store op).Mute := by
  intro d
  refine ⟨?_, trivial⟩
  dsimp only
  split
  · rfl
  · rfl

/-! Announcements. -/

theorem notices_announce {policy : Policy} (hpolicy : policy.announces = true)
    (event : ProgressEvent) (d : Desk) :
    (announce policy event).notices d = [⟨event, d.store⟩] := by
  have hnew : newNotices d { d with events := d.events ++ [event] } = [⟨event, d.store⟩] := by
    simp [newNotices]
  rw [announce, if_pos hpolicy]
  exact congrArg (· ++ []) hnew

end Procedure

namespace Service.Call

theorem mute {c : Call} (hc : ¬ c.Speaks) (policy : Policy) : (c.procedure policy).Mute :=
  (c.performs policy).mute hc

/-- No call takes an event back. -/
theorem appends (policy : Policy) (c : Call) : (c.procedure policy).Appends :=
  (c.performs policy).appends

end Service.Call

end Collate

import Collate.Proofs.Service.Procedure
import Mathlib.Logic.Relation

/-!
Procedures that others come in between. Each action of a procedure takes place at
once, but between two of them other procedures may act. What a procedure `Does`
is what each of its actions does to the store, whoever acted before. It `Meets`
what is asked of it, if that holds of every store that one of its actions leaves
and of what it comes to, provided that the others keep to a relation. `Safe`
takes this from the procedures to the scene that all of them work on, and so does a
scene's own `Does` from single actions to whatever happens in the scene.
-/

namespace Collate

namespace Procedure

variable {α β : Type} {p : Procedure α} {f : α → Procedure β}

def advance : Procedure α → Desk → Procedure α × Desk
  | .done result, d => (.done result, d)
  | .act action next, d => (next (action d).1, (action d).2)

theorem advance_store_ok {op : StoreOp α} {d : Desk} {a : α} {s : Store}
    (hop : op d.store = .ok (a, s)) :
    (store op >>= f).advance d = (f a, { d with store := s }) := by
  change (bind (store op) f).advance d = _
  simp only [store, bind, advance, hop]

theorem advance_store_error {op : StoreOp α} {d : Desk} {fault : StoreFault}
    (hop : op d.store = .error fault) :
    (store op >>= f).advance d = (.done (.error (.ofStore fault)), d) := by
  change (bind (store op) f).advance d = _
  simp only [store, bind, advance, hop]

/-! What each action does to the store. -/

/-- Whether each action of a procedure does to the store what a relation says. -/
abbrev Does (G : Store → Store → Prop) (p : Procedure α) : Prop :=
  p.Acts fun d d' => G d.store d'.store

section

variable {G : Store → Store → Prop}

theorem Does.advance (h : p.Does G) (d : Desk) :
    ((p.advance d).2 = d ∨ G d.store (p.advance d).2.store) ∧ (p.advance d).1.Does G := by
  cases p with
  | done result => exact ⟨.inl rfl, trivial⟩
  | act action next => exact ⟨.inr (h d).1, (h d).2⟩

theorem Does.store {op : StoreOp α} (hrefl : ∀ s, G s s)
    (hop : ∀ {s a s'}, op s = .ok (a, s') → G s s') : (store op).Does G := by
  intro d
  refine ⟨?_, trivial⟩
  dsimp only
  split
  · rename_i hok
    exact hop hok
  · exact hrefl d.store

end

abbrev Silent (p : Procedure α) : Prop := p.Does fun s s' => s' = s

/-! What a procedure meets while others act. -/

/-- Whether every store that an action of a procedure leaves is as `inv` says, and
what it comes to as `post` says, if others keep to `R` in between. -/
def Meets (R : Store → Store → Prop) (inv : Store → Prop)
    (post : Except ServiceFault α → Store → Prop) : Procedure α → Store → Prop
  | .done result, s => post result s
  | .act action next, s => ∀ d, R s d.store →
      inv (action d).2.store ∧ (next (action d).1).Meets R inv post (action d).2.store

section

variable {R : Store → Store → Prop} {inv : Store → Prop} {s : Store}
  {post : Except ServiceFault α → Store → Prop} {post' : Except ServiceFault β → Store → Prop}

/-- The second of two procedures starts from what the first one comes to. -/
theorem Meets.bind (hp : p.Meets R inv post s)
    (hok : ∀ a t, post (.ok a) t → (f a).Meets R inv post' t)
    (herror : ∀ fault t, post (.error fault) t → post' (.error fault) t) :
    (p >>= f).Meets R inv post' s := by
  change (p.bind f).Meets R inv post' s
  induction p generalizing s with
  | done result =>
    cases result with
    | ok a => exact hok a s hp
    | error fault => exact herror fault s hp
  | act action next ih =>
    exact fun d hothers => ⟨(hp d hothers).1, ih _ (hp d hothers).2⟩

theorem Meets.mono {post' : Except ServiceFault α → Store → Prop} (hp : p.Meets R inv post s)
    (himp : ∀ r t, post r t → post' r t) : p.Meets R inv post' s := by
  induction p generalizing s with
  | done result => exact himp result s hp
  | act action next ih =>
    exact fun d hothers => ⟨(hp d hothers).1, ih _ (hp d hothers).2⟩

theorem Meets.attempt (hp : p.Meets R inv post s) :
    p.attempt.Meets R inv (fun r t => ∃ result, r = .ok result ∧ post result t) s := by
  induction p generalizing s with
  | done result => exact ⟨result, rfl, hp⟩
  | act action next ih =>
    exact fun d hothers => ⟨(hp d hothers).1, ih _ (hp d hothers).2⟩

theorem Meets.perform {action : Desk → α × Desk} (h : ∀ d, R s d.store →
    inv (action d).2.store ∧ post (.ok (action d).1) (action d).2.store) :
    (perform action).Meets R inv post s := h

theorem Meets.store {op : StoreOp α}
    (hok : ∀ t a t', R s t → op t = .ok (a, t') → inv t' ∧ post (.ok a) t')
    (herror : ∀ t fault, R s t → op t = .error fault →
      inv t ∧ post (.error (.ofStore fault)) t) : (store op).Meets R inv post s := by
  intro d hothers
  dsimp only
  cases hop : op d.store with
  | ok result => exact hok d.store result.1 result.2 hothers hop
  | error fault => exact herror d.store fault hothers hop

/-- What neither the others nor the procedure's actions take away holds on. -/
theorem Does.meets {G : Store → Store → Prop} (h : p.Does G) {hold : Store → Prop}
    (hinv : ∀ t, hold t → inv t) (hothers : ∀ t t', hold t → R t t' → hold t')
    (hkeeps : ∀ t t', hold t → G t t' → hold t') (hs : hold s) :
    p.Meets R inv (fun _ => hold) s := by
  induction p generalizing s with
  | done result => exact hs
  | act action next ih =>
    intro d hrely
    have hafter := hkeeps _ _ (hothers _ _ hs hrely) (h d).1
    exact ⟨hinv _ hafter, ih _ (h d).2 hafter⟩

theorem Silent.meets (h : p.Silent) {hold : Store → Prop} (hinv : ∀ t, hold t → inv t)
    (hothers : ∀ t t', hold t → R t t' → hold t') (hs : hold s) :
    p.Meets R inv (fun _ => hold) s :=
  Does.meets h hinv hothers (fun _ _ ht hsame => hsame ▸ ht) hs

/-- After an action of the procedure, it goes on from the store that this left. -/
theorem Meets.advance (h : p.Meets R inv post s) (hrefl : ∀ t, R t t) {d : Desk}
    (hothers : R s d.store) :
    ((p.advance d).2 = d ∨ inv (p.advance d).2.store) ∧
      ∃ t, R t (p.advance d).2.store ∧ (p.advance d).1.Meets R inv post t := by
  cases p with
  | done result => exact ⟨.inl rfl, s, hothers, h⟩
  | act action next => exact ⟨.inr (h d hothers).1, _, hrefl _, (h d hothers).2⟩

end

end Procedure

/-! Several procedures on one desk. -/

/-- A procedure at work on a desk, and the procedures of others. -/
structure Scene (α : Type) where
  desk : Desk
  work : Procedure α
  others : List (Procedure Unit)

namespace Scene

variable {α κ : Type} {joins : κ → Procedure Unit} {x y : Scene α}

def alone (d : Desk) (p : Procedure α) : Scene α := ⟨d, p, []⟩

def worked (x : Scene α) : Scene α :=
  ⟨(x.work.advance x.desk).2, (x.work.advance x.desk).1, x.others⟩

/-- The scene once another one's procedure did its next action. -/
def yielded (x : Scene α) (n : Nat) : Scene α :=
  match x.others[n]? with
  | none => x
  | some q => ⟨(q.advance x.desk).2, x.work, x.others.set n (q.advance x.desk).1⟩

/-- The scene once somebody came to do one more procedure. -/
def joined (x : Scene α) (q : Procedure Unit) : Scene α := { x with others := x.others ++ [q] }

/-- What happens next, others doing the procedures that they may do. -/
inductive Step (joins : κ → Procedure Unit) : Scene α → Scene α → Prop
  | work (x : Scene α) : Step joins x x.worked
  | other (x : Scene α) (n : Nat) : Step joins x (x.yielded n)
  | join (x : Scene α) (k : κ) : Step joins x (x.joined (joins k))
  /-- Time passes, files on disk come and go, ids are given out. -/
  | meanwhile {x : Scene α} {d : Desk} : d.store = x.desk.store → Step joins x { x with desk := d }

abbrev LeadsTo (joins : κ → Procedure Unit) : Scene α → Scene α → Prop :=
  Relation.ReflTransGen (Step joins)

/-- A step is one of the procedure, or the store moves as others move it. -/
theorem Step.cases {R : Store → Store → Prop} (hrefl : ∀ s, R s s)
    (hjoins : ∀ k, (joins k).Does R) (hothers : ∀ q ∈ x.others, q.Does R)
    (hstep : Step joins x y) : (∀ q ∈ y.others, q.Does R) ∧
      (y = x.worked ∨ y.work = x.work ∧ R x.desk.store y.desk.store) := by
  cases hstep with
  | work => exact ⟨hothers, .inl rfl⟩
  | other n =>
    cases hq : x.others[n]? with
    | none =>
      have hsame : x.yielded n = x := by rw [yielded, hq]
      rw [hsame]
      exact ⟨hothers, .inr ⟨rfl, hrefl _⟩⟩
    | some q =>
      obtain ⟨hmoves, hrest⟩ := (hothers q (List.mem_of_getElem? hq)).advance x.desk
      have hafter : x.yielded n =
          ⟨(q.advance x.desk).2, x.work, x.others.set n (q.advance x.desk).1⟩ := by
        rw [yielded, hq]
      rw [hafter]
      refine ⟨fun r hr => ?_, .inr ⟨rfl, ?_⟩⟩
      · rcases List.mem_or_eq_of_mem_set hr with hold | rfl
        · exact hothers r hold
        · exact hrest
      · rcases hmoves with hsame | hmoves
        · rw [hsame]
          exact hrefl _
        · exact hmoves
  | join k =>
    refine ⟨fun q hq => ?_, .inr ⟨rfl, hrefl _⟩⟩
    rcases List.mem_append.mp hq with hold | hnew
    · exact hothers q hold
    · rw [List.mem_singleton.mp hnew]
      exact hjoins k
  | meanwhile hsame => exact ⟨hothers, .inr ⟨rfl, hsame ▸ hrefl _⟩⟩

/-- A scene in which `inv` holds of the store, whatever happens next. -/
structure Safe (R : Store → Store → Prop) (inv : Store → Prop) (x : Scene α) : Prop where
  work : ∃ s, R s x.desk.store ∧ x.work.Meets R inv (fun _ _ => True) s
  others : ∀ q ∈ x.others, q.Does R
  inv : inv x.desk.store

section

variable {R : Store → Store → Prop} {inv : Store → Prop} (hR : Procedure.Gathers R)
  (hinv : ∀ s t, inv s → R s t → inv t) (hjoins : ∀ k, (joins k).Does R)

include hR hinv hjoins

theorem Safe.step (h : x.Safe R inv) (hstep : Step joins x y) : y.Safe R inv := by
  obtain ⟨s, hrely, hmeets⟩ := h.work
  obtain ⟨hothers, rfl | ⟨hwork, hmoves⟩⟩ := hstep.cases hR.refl hjoins h.others
  · obtain ⟨hafter, hon⟩ := hmeets.advance hR.refl hrely
    refine ⟨hon, hothers, ?_⟩
    rcases hafter with hsame | hafter
    · rw [worked, hsame]
      exact h.inv
    · exact hafter
  · exact ⟨⟨s, hR.trans hrely hmoves, hwork ▸ hmeets⟩, hothers, hinv _ _ h.inv hmoves⟩

theorem Safe.leadsTo (h : x.Safe R inv) (hon : LeadsTo joins x y) : y.Safe R inv := by
  induction hon with
  | refl => exact h
  | tail _ hstep ih => exact ih.step hR hinv hjoins hstep

end

/-! What everybody does. -/

/-- Whether all that is still to be done does to the store what a relation says. -/
structure Does (R : Store → Store → Prop) (x : Scene α) : Prop where
  work : x.work.Does R
  others : ∀ q ∈ x.others, q.Does R

section

variable {R : Store → Store → Prop} (hR : Procedure.Gathers R) (hjoins : ∀ k, (joins k).Does R)

include hR hjoins

theorem Does.step (h : x.Does R) (hstep : Step joins x y) :
    y.Does R ∧ R x.desk.store y.desk.store := by
  obtain ⟨hothers, rfl | ⟨hwork, hmoves⟩⟩ := hstep.cases hR.refl hjoins h.others
  · obtain ⟨hmoves, hrest⟩ := h.work.advance x.desk
    refine ⟨⟨hrest, hothers⟩, ?_⟩
    rcases hmoves with hsame | hmoves
    · rw [worked, hsame]
      exact hR.refl _
    · exact hmoves
  · exact ⟨⟨hwork ▸ h.work, hothers⟩, hmoves⟩

/-- However the procedures come in between each other, the store moves as each of them moves
it. -/
theorem Does.leadsTo (h : x.Does R) (hon : LeadsTo joins x y) :
    y.Does R ∧ R x.desk.store y.desk.store := by
  induction hon with
  | refl => exact ⟨h, hR.refl _⟩
  | tail _ hstep ih =>
    obtain ⟨hnext, hmoves⟩ := ih.1.step hR hjoins hstep
    exact ⟨hnext, hR.trans ih.2 hmoves⟩

end

/-! Scenes that are played. -/

inductive Move (κ : Type) where
  | work
  | other (n : Nat)
  | join (k : κ)

def moved (joins : κ → Procedure Unit) (x : Scene α) : Move κ → Scene α
  | .work => x.worked
  | .other n => x.yielded n
  | .join k => x.joined (joins k)

def played (joins : κ → Procedure Unit) (x : Scene α) (moves : List (Move κ)) : Scene α :=
  moves.foldl (moved joins) x

theorem leadsTo_played (joins : κ → Procedure Unit) (x : Scene α) (moves : List (Move κ)) :
    LeadsTo joins x (x.played joins moves) := by
  induction moves generalizing x with
  | nil => exact .refl
  | cons m rest ih =>
    have hstep : Step joins x (x.moved joins m) := by
      cases m with
      | work => exact .work x
      | other n => exact .other x n
      | join k => exact .join x k
    exact .head hstep (ih _)

/-- The scene once somebody came and did a procedure with nobody in between. -/
def visited (joins : κ → Procedure Unit) (x : Scene α) (k : κ) : Scene α :=
  ⟨((joins k).run x.desk).2, x.work, x.others ++ [.done ((joins k).run x.desk).1]⟩

/-- The last of the others can do all its actions in a row. -/
theorem leadsTo_run (joins : κ → Procedure Unit) (work : Procedure α)
    (others : List (Procedure Unit)) (q : Procedure Unit) (d : Desk) :
    LeadsTo joins ⟨d, work, others ++ [q]⟩
      ⟨(q.run d).2, work, others ++ [.done (q.run d).1]⟩ := by
  induction q generalizing d with
  | done result => exact .refl
  | act action next ih =>
    have hyielded : (⟨d, work, others ++ [.act action next]⟩ : Scene α).yielded others.length =
        ⟨(action d).2, work, others ++ [next (action d).1]⟩ := by
      simp [yielded, Procedure.advance]
    exact .head (hyielded ▸ .other _ others.length) (ih _ _)

theorem leadsTo_visited (joins : κ → Procedure Unit) (x : Scene α) (k : κ) :
    LeadsTo joins x (x.visited joins k) :=
  .head (.join x k) (leadsTo_run joins x.work x.others (joins k) x.desk)

/-- Procedures that are done one after the other are done in a scene. -/
theorem leadsTo_visits (joins : κ → Procedure Unit) (x : Scene α) (ks : List κ) :
    LeadsTo joins x (ks.foldl (visited joins) x) := by
  induction ks generalizing x with
  | nil => exact .refl
  | cons k rest ih => exact (leadsTo_visited joins x k).trans (ih _)

end Scene

end Collate

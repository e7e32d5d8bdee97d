/-
What a sampler does with the draws it is given: each construct is told by the draws it takes and the requests
it records. Asking until a draw is accepted takes the rejected draws in front of the first accepted one, and
this one.
-/
import Reckon.Random.Source
import Reckon.Proofs.Outcome

namespace Reckon.Random.Sampler

variable {α β : Type}

/-- The result on a record, and the record at the end. -/
def outcomeOn (m : Sampler α) (s : Record) : Except Stop α × Record := m.run.run s

/-- On the first record the sampler gives the result and leaves the second record. -/
def Gives (m : Sampler α) (s : Record) (a : α) (s' : Record) : Prop := outcomeOn m s = (.ok a, s')

/-- On the first record the sampler stops without a result and leaves the second record. -/
def Stops (m : Sampler α) (s : Record) (e : Stop) (s' : Record) : Prop := outcomeOn m s = (.error e, s')

/-! ## Sequencing -/

section Sequencing

variable {m : Sampler α} {f : α → Sampler β} {s s' : Record} {a b : α} {c : β} {e : Stop}

theorem outcomeOn_bind (m : Sampler α) (f : α → Sampler β) (s : Record) : outcomeOn (m >>= f) s =
    match outcomeOn m s with
    | (.ok a, s') => outcomeOn (f a) s'
    | (.error e, s') => (.error e, s') := by
  unfold outcomeOn
  rw [ExceptT.run_bind, StateT.run_bind]
  change (match (m.run.run s : Except Stop α × Record) with | (r, s') => _) = _
  rcases (m.run.run s : Except Stop α × Record) with ⟨e | a, s'⟩ <;> rfl

/-- After a result the rest runs on the record that is left. -/
theorem Gives.outcomeOn_bind (h : Gives m s a s') (f : α → Sampler β) : outcomeOn (m >>= f) s = outcomeOn (f a) s' := by
  rw [Sampler.outcomeOn_bind, h]

theorem gives_pure_iff : Gives (pure a) s b s' ↔ b = a ∧ s' = s := by
  change (Except.ok a, s) = (Except.ok b, s') ↔ _
  rw [Prod.mk.injEq, Except.ok.injEq]
  exact and_congr eq_comm eq_comm

theorem gives_bind_iff : Gives (m >>= f) s c s' ↔ ∃ a t, Gives m s a t ∧ Gives (f a) t c s' := by
  unfold Gives
  rw [outcomeOn_bind]
  rcases outcomeOn m s with ⟨e | a, t⟩
  · exact iff_of_false nofun fun ⟨_, _, h, _⟩ => nomatch h
  · constructor
    · intro h
      exact ⟨a, t, rfl, h⟩
    · rintro ⟨a', t', heq, h⟩
      obtain ⟨rfl, rfl⟩ : a = a' ∧ t = t' := by simpa using heq
      exact h

theorem stops_bind_iff : Stops (m >>= f) s e s' ↔ Stops m s e s' ∨ ∃ a t, Gives m s a t ∧ Stops (f a) t e s' := by
  unfold Gives Stops
  rw [outcomeOn_bind]
  rcases outcomeOn m s with ⟨e' | a, t⟩
  · constructor
    · intro h
      obtain ⟨rfl, rfl⟩ : e' = e ∧ t = s' := by simpa using h
      exact .inl rfl
    · rintro (h | ⟨_, _, h, _⟩)
      · obtain ⟨rfl, rfl⟩ : e' = e ∧ t = s' := by simpa using h
        rfl
      · cases h
  · constructor
    · intro h
      exact .inr ⟨a, t, rfl, h⟩
    · rintro (h | ⟨a', t', heq, h⟩)
      · cases h
      · obtain ⟨rfl, rfl⟩ : a = a' ∧ t = t' := by simpa using heq
        exact h

theorem outcomeOn_ofOutcome (x : Outcome α) (s : Record) : outcomeOn (ofOutcome x) s = (x.mapError .failed, s) := by
  cases x <;> rfl

end Sequencing

/-! ## Draws -/

section Draws

variable {r : Request} {s s' : Record} {a : α}

theorem outcomeOn_ask_cons (r : Request) (d : Draw) (rest : List Draw) (requests : List Request) :
    outcomeOn (ask r) ⟨d :: rest, requests⟩ = (.ok d, ⟨rest, r :: requests⟩) := rfl

theorem outcomeOn_ask_nil (r : Request) (requests : List Request) :
    outcomeOn (ask r) ⟨[], requests⟩ = (.error .exhausted, ⟨[], r :: requests⟩) := rfl

/-- One request takes one draw, of the form that was asked for. -/
theorem gives_askFor_iff {form : Draw → Option α} : Gives (askFor r form) s a s' ↔
    ∃ d, s.remaining = d :: s'.remaining ∧ form d = some a ∧ s'.requests = r :: s.requests := by
  obtain ⟨draws, requests⟩ := s
  unfold askFor
  rw [gives_bind_iff]
  cases draws with
  | nil =>
    refine iff_of_false ?_ fun ⟨_, h, _⟩ => nomatch h
    rintro ⟨d, t, hask, -⟩
    rw [Gives, outcomeOn_ask_nil] at hask
    cases hask
  | cons d rest =>
    constructor
    · rintro ⟨d', t, hask, hform⟩
      rw [Gives, outcomeOn_ask_cons] at hask
      obtain ⟨rfl, rfl⟩ : d = d' ∧ ⟨rest, r :: requests⟩ = t := by simpa using hask
      cases hd : form d with
      | none =>
        rw [hd] at hform
        cases hform
      | some b =>
        rw [hd] at hform
        obtain ⟨rfl, rfl⟩ := gives_pure_iff.1 hform
        exact ⟨d, rfl, hd, rfl⟩
    · rintro ⟨d', hdraws, hform, hrequests⟩
      obtain ⟨rfl, rfl⟩ := List.cons.inj hdraws
      refine ⟨d, ⟨s'.remaining, r :: requests⟩, rfl, ?_⟩
      rw [hform]
      exact gives_pure_iff.2 ⟨rfl, by rw [← hrequests]⟩

theorem gives_askFor_cons {form : Draw → Option α} {d : Draw} (h : form d = some a) (rest : List Draw)
    (requests : List Request) : Gives (askFor r form) ⟨d :: rest, requests⟩ a ⟨rest, r :: requests⟩ :=
  gives_askFor_iff.2 ⟨d, rfl, h, rfl⟩

theorem stops_askFor_nil {form : Draw → Option α} (requests : List Request) :
    Stops (askFor r form) ⟨[], requests⟩ .exhausted ⟨[], r :: requests⟩ :=
  stops_bind_iff.2 (.inl (outcomeOn_ask_nil r requests))

/-! ## Asking until a draw is accepted -/

section Accepted

variable {form : Draw → Option (Option α)}

/-- All draws that are taken are rejected, but for the last one, which is accepted. -/
structure TakesAccepted (r : Request) (form : Draw → Option (Option α)) (rejected : List Draw) (s : Record) (a : α)
    (s' : Record) : Prop where
  draws : ∃ d, s.remaining = rejected ++ d :: s'.remaining ∧ form d = some (some a)
  rejects : ∀ d ∈ rejected, form d = some none
  requests : s'.requests = List.replicate (rejected.length + 1) r ++ s.requests

theorem takesAccepted_nil_iff : TakesAccepted r form [] s a s' ↔ Gives (askFor r form) s (some a) s' := by
  rw [gives_askFor_iff]
  constructor
  · rintro ⟨⟨d, hdraws, hform⟩, -, hrequests⟩
    exact ⟨d, hdraws, hform, hrequests⟩
  · rintro ⟨d, hdraws, hform, hrequests⟩
    exact ⟨⟨d, hdraws, hform⟩, List.forall_mem_nil _, hrequests⟩

theorem takesAccepted_cons_iff {d : Draw} {rejected : List Draw} : TakesAccepted r form (d :: rejected) s a s' ↔
    ∃ t, s.remaining = d :: t.remaining ∧ Gives (askFor r form) s none t ∧ TakesAccepted r form rejected t a s' := by
  constructor
  · rintro ⟨⟨d', hdraws, hform⟩, hrejects, hrequests⟩
    obtain ⟨hd, hrest⟩ := List.forall_mem_cons.1 hrejects
    refine ⟨⟨rejected ++ d' :: s'.remaining, r :: s.requests⟩, hdraws, gives_askFor_iff.2 ⟨d, hdraws, hd, rfl⟩,
      ⟨d', rfl, hform⟩, hrest, ?_⟩
    rw [hrequests, List.length_cons, List.replicate_succ', List.append_assoc, List.singleton_append]
  · rintro ⟨t, hdraws, hgives, ⟨d', hrest, hform⟩, hrejects, hrequests⟩
    obtain ⟨d'', hdraws', hd, ht⟩ := gives_askFor_iff.1 hgives
    obtain ⟨rfl, -⟩ := List.cons.inj (hdraws.symm.trans hdraws')
    refine ⟨⟨d', by rw [hdraws, hrest, List.cons_append], hform⟩, List.forall_mem_cons.2 ⟨hd, hrejects⟩, ?_⟩
    rw [hrequests, ht, List.length_cons, List.replicate_succ' (n := rejected.length + 1), List.append_assoc,
      List.singleton_append]

theorem gives_askWithin_iff (fuel : Nat) {s : Record} : Gives (askWithin r form fuel) s a s' ↔
    ∃ rejected : List Draw, rejected.length < fuel ∧ TakesAccepted r form rejected s a s' := by
  induction fuel generalizing s with
  | zero => exact iff_of_false nofun fun ⟨_, h, _⟩ => absurd h (Nat.not_lt_zero _)
  | succ fuel ih =>
    rw [askWithin, gives_bind_iff]
    constructor
    · rintro ⟨answer, t, hask, hrest⟩
      cases answer with
      | some b =>
        obtain ⟨rfl, rfl⟩ := gives_pure_iff.1 hrest
        exact ⟨[], Nat.succ_pos _, takesAccepted_nil_iff.2 hask⟩
      | none =>
        obtain ⟨rejected, hlength, htakes⟩ := ih.1 hrest
        obtain ⟨d, hdraws, -, -⟩ := gives_askFor_iff.1 hask
        exact ⟨d :: rejected, Nat.succ_lt_succ hlength, takesAccepted_cons_iff.2 ⟨t, hdraws, hask, htakes⟩⟩
    · rintro ⟨rejected, hlength, htakes⟩
      cases rejected with
      | nil => exact ⟨some a, s', takesAccepted_nil_iff.1 htakes, gives_pure_iff.2 ⟨rfl, rfl⟩⟩
      | cons d rejected =>
        obtain ⟨t, -, hask, hrest⟩ := takesAccepted_cons_iff.1 htakes
        exact ⟨none, t, hask, ih.2 ⟨rejected, Nat.lt_of_succ_lt_succ hlength, hrest⟩⟩

/-- The bound on the requests is never met, since every request takes a draw. -/
theorem gives_askUntil_iff : Gives (askUntil r form) s a s' ↔
    ∃ rejected, TakesAccepted r form rejected s a s' := by
  have hget : ∀ {t u : Record}, Gives (get : Sampler Record) s t u ↔ t = s ∧ u = s := by
    intro t u
    change (Except.ok s, s) = (Except.ok t, u) ↔ _
    rw [Prod.mk.injEq, Except.ok.injEq]
    exact and_congr eq_comm eq_comm
  rw [askUntil, gives_bind_iff]
  constructor
  · rintro ⟨t, u, hst, hwithin⟩
    obtain ⟨rfl, rfl⟩ := hget.1 hst
    obtain ⟨rejected, -, htakes⟩ := (gives_askWithin_iff _).1 hwithin
    exact ⟨rejected, htakes⟩
  · rintro ⟨rejected, htakes⟩
    refine ⟨s, s, hget.2 ⟨rfl, rfl⟩, (gives_askWithin_iff _).2 ⟨rejected, ?_, htakes⟩⟩
    obtain ⟨d, hdraws, -⟩ := htakes.draws
    rw [hdraws, List.length_append]
    omega

/-- If every draw is rejected, the source runs out with one request more than draws. -/
theorem stops_askWithin {draws : List Draw} (h : ∀ d ∈ draws, form d = some none) {fuel : Nat}
    (hfuel : draws.length < fuel) (requests : List Request) : Stops (askWithin r form fuel) ⟨draws, requests⟩ .exhausted
      ⟨[], List.replicate (draws.length + 1) r ++ requests⟩ := by
  induction draws generalizing fuel requests with
  | nil =>
    obtain ⟨fuel, rfl⟩ := Nat.exists_eq_succ_of_ne_zero hfuel.ne'
    exact stops_bind_iff.2 (.inl (stops_askFor_nil requests))
  | cons d draws ih =>
    obtain ⟨hd, hrest⟩ := List.forall_mem_cons.1 h
    obtain ⟨fuel, rfl⟩ := Nat.exists_eq_succ_of_ne_zero (Nat.ne_zero_of_lt hfuel)
    refine stops_bind_iff.2 (.inr ⟨none, ⟨draws, r :: requests⟩, gives_askFor_cons hd draws requests, ?_⟩)
    have hstops := ih hrest (Nat.lt_of_succ_lt_succ hfuel) (r :: requests)
    rwa [List.length_cons, List.replicate_succ', List.append_assoc, List.singleton_append]

theorem stops_askUntil {draws : List Draw} (h : ∀ d ∈ draws, form d = some none) (requests : List Request) :
    Stops (askUntil r form) ⟨draws, requests⟩ .exhausted ⟨[], List.replicate (draws.length + 1) r ++ requests⟩ :=
  stops_bind_iff.2 (.inr ⟨⟨draws, requests⟩, ⟨draws, requests⟩, rfl, stops_askWithin h (Nat.lt_succ_self _) requests⟩)

end Accepted

end Draws

end Reckon.Random.Sampler

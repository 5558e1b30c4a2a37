import Sprig.Proofs.Comparison

/-!
# The limit on nested calls

The limit decides only whether a run ends, never what it computes: of two runs that differ in their
limits, the one with the smaller limit either is the same run or stops at its limit, and it stops
exactly if the other one opens more calls at once than the smaller limit allows. The proof compares
the two evaluations step by step (`betweenLimits`), from states with the same number `k` of open
calls that have so far kept to the smaller limit. Once the first evaluation has stopped, the second
may go on, and all that counts is that its peak does not sink again (`Rises`).
-/

namespace Sprig

namespace Eval

variable {α β : Type}

/-! ## Peaks never sink -/

/-- The step does not lower the peak, and what it gives is as the predicate says. -/
def Rises (R : α → Prop) (m : Eval α) : Prop :=
  ∀ st, st.peak ≤ (m.stateAfter st).peak ∧ ∀ a st', m st = .ok a st' → R a

theorem rises_pure {R : α → Prop} {a : α} (h : R a) : Rises R (pure a) := by
  refine fun st => ⟨Nat.le_refl _, ?_⟩
  rintro b st' ⟨⟩
  exact h

theorem rises_of_error {R : α → Prop} {m : Eval α} {x : Exit} (h : ∀ st, m st = .error x st) :
    Rises R m := by
  refine fun st => ⟨?_, fun a st' ha => ?_⟩
  · exact Nat.le_of_eq (congrArg State.peak (stateAfter_of_error (h st)).symm)
  · rw [h st] at ha
    cases ha

/-- A step that changes at most the store. -/
theorem rises_of_peak_eq {R : α → Prop} {m : Eval α} (hR : ∀ a, R a)
    (h : ∀ st, (m.stateAfter st).peak = st.peak) : Rises R m :=
  fun st => ⟨Nat.le_of_eq (h st).symm, fun a _ _ => hR a⟩

theorem Rises.bind {R : α → Prop} {Q : β → Prop} {m : Eval α} {f : α → Eval β} (hm : Rises R m)
    (hf : ∀ a, R a → Rises Q (f a)) : Rises Q (m >>= f) := by
  intro st
  obtain ⟨hpeak, hR⟩ := hm st
  cases hst : m st with
  | ok a st' =>
    rw [stateAfter_of_ok hst] at hpeak
    obtain ⟨hpeak', hQ⟩ := hf a (hR a st' hst) st'
    have hbind : (m >>= f) st = f a st' := bind_of_ok hst
    refine ⟨?_, fun b st'' hb => hQ b st'' (hbind ▸ hb)⟩
    rw [stateAfter, hbind]
    exact Nat.le_trans hpeak hpeak'
  | error x st' =>
    rw [stateAfter_of_error hst] at hpeak
    have hbind : (m >>= f) st = .error x st' := bind_of_error hst
    refine ⟨?_, fun b st'' hb => ?_⟩
    · rw [stateAfter_of_error hbind]
      exact hpeak
    · rw [hbind] at hb
      cases hb

/-- A call counts in the peak, however its body ends. -/
theorem Rises.peak_enter_le {R : Option Value → Prop} {m : Eval (Option Value)} (hm : Rises R m)
    (st : State) : st.enter.peak ≤ ((asCall m).stateAfter st).peak := by
  have hbody := (hm st.enter).1
  unfold stateAfter asCall
  match hst : m st.enter with
  | .ok v st' => exact stateAfter_of_ok hst ▸ hbody
  | .error (.returned v) st' => exact stateAfter_of_error hst ▸ hbody
  | .error (.fault e) st' => exact stateAfter_of_error hst ▸ hbody

end Eval

/-- Evaluation compared with itself: values are the same, and the peak does not sink. -/
def rising : Comparison where
  toPairing := .same
  step w R _ m := m.Rises fun b => ∃ a, R w a b
  pure h := Eval.rises_pure ⟨_, h⟩
  bind hm hf := hm.bind fun _ ⟨_, ha⟩ => hf trivial ha
  fault e := Eval.rises_of_error fun _ => rfl
  leaveWith h := Eval.rises_of_error fun _ => rfl
  lookUp _ _ := Eval.rises_of_peak_eq (fun a => ⟨a, rfl⟩) fun st => by
    rw [Eval.stateAfter_lookUp]
  assign name _ _ := Eval.rises_of_peak_eq (fun a => ⟨a, trivial⟩) fun _ => rfl
  makeFunction _ _ _ _ := Eval.rises_of_peak_eq (fun a => ⟨a, rfl⟩) fun _ => rfl
  openScope _ _ := Eval.rises_of_peak_eq (fun a => ⟨a, rfl⟩) fun _ => rfl

theorem rising_invoke (limit budget : Nat) :
    rising.Calls (Closure.invoke limit budget) (Closure.invoke limit budget) :=
  rising.invoke (fun _ _ _ h st => ⟨Nat.le_trans (Nat.le_max_left _ _) (h.peak_enter_le st),
    fun a _ _ => ⟨a, rfl⟩⟩) limit budget

/-! ## Two limits -/

section Limits

variable {α β : Type}

/-- The step goes beyond the limit `small`, or stops at the limit `big`. -/
def Exceeds (small big : Nat) : EStateM.Result Exit State α → Prop
  | .ok _ st => small < st.peak
  | .error x st => small < st.peak ∨ x = .fault (.tooDeep big)

/-- What two evaluations with the limits `small` and `big` come to: they end alike, with `k` open
calls and within the smaller limit, or the first one stops at its limit and the second one goes
beyond. -/
inductive Outcomes (small big k : Nat) (R : α → α → Prop) :
    EStateM.Result Exit State α → EStateM.Result Exit State α → Prop where
  | ok {a b : α} {st : State} (h : R a b) (hdepth : st.depth = k) (hpeak : st.peak ≤ small) :
      Outcomes small big k R (.ok a st) (.ok b st)
  | error {x : Exit} {st : State} (hdepth : st.depth = k) (hpeak : st.peak ≤ small) :
      Outcomes small big k R (.error x st) (.error x st)
  | tooDeep {st : State} {r : EStateM.Result Exit State α} (h : Exceeds small big r) :
      Outcomes small big k R (.error (.fault (.tooDeep small)) st) r

/-- From a state with `k` open calls and within the smaller limit, the two steps come to the same or
are told apart by the smaller limit. -/
def Agree (small big k : Nat) (R : α → α → Prop) (n m : Eval α) : Prop :=
  ∀ st, st.depth = k → st.peak ≤ small → Outcomes small big k R (n st) (m st)

variable {small big k : Nat}

theorem exceeds_of_lt_peak {m : Eval α} {st : State} (h : small < (m.stateAfter st).peak) :
    Exceeds small big (m st) := by
  cases hst : m st with
  | ok a st' => exact Eval.stateAfter_of_ok hst ▸ h
  | error x st' => exact .inl (Eval.stateAfter_of_error hst ▸ h)

/-- What goes beyond the limit is beyond it after all that follows. -/
theorem Exceeds.bind {m : Eval α} {f : α → Eval β} {R : α → Prop} {Q : β → Prop} {st : State}
    (h : Exceeds small big (m st)) (hm : m.Rises R) (hf : ∀ a, R a → (f a).Rises Q) :
    Exceeds small big ((m >>= f) st) := by
  cases hst : m st with
  | ok a st' =>
    rw [hst] at h
    rw [Eval.bind_of_ok hst]
    exact exceeds_of_lt_peak (Nat.lt_of_lt_of_le h (hf a ((hm st).2 a st' hst) st').1)
  | error x st' =>
    rw [hst] at h
    rw [Eval.bind_of_error hst]
    exact h

theorem Agree.bind {R : α → α → Prop} {Q : β → β → Prop} {n m : Eval α} {f g : α → Eval β}
    (h : Agree small big k R n m) (hm : m.Rises fun b => ∃ a, R a b)
    (hfg : ∀ a b, R a b → Agree small big k Q (f a) (g b))
    (hg : ∀ a b, R a b → (g b).Rises fun d => ∃ c, Q c d) :
    Agree small big k Q (n >>= f) (m >>= g) := by
  intro st hdepth hpeak
  have hst := h st hdepth hpeak
  cases hn : n st with
  | ok a st' =>
    rw [Eval.bind_of_ok hn]
    generalize hr : m st = r at hst
    rw [hn] at hst
    cases hst with
    | ok hab hdepth hpeak =>
      rw [Eval.bind_of_ok hr]
      exact hfg _ _ hab _ hdepth hpeak
  | error x st' =>
    rw [Eval.bind_of_error hn]
    generalize hr : m st = r at hst
    rw [hn] at hst
    cases hst with
    | error hdepth hpeak =>
      rw [Eval.bind_of_error hr]
      exact .error hdepth hpeak
    | tooDeep hr' =>
      rw [← hr] at hr'
      exact .tooDeep (hr'.bind hm fun b ⟨a, hab⟩ => hg a b hab)

/-- The same step on both sides, if it leaves the counters alone. -/
theorem Agree.refl {R : α → α → Prop} {m : Eval α} (hR : ∀ a, R a a)
    (h : ∀ st, (m.stateAfter st).depth = st.depth ∧ (m.stateAfter st).peak = st.peak) :
    Agree small big k R m m := by
  intro st hdepth hpeak
  obtain ⟨hd, hp⟩ := h st
  unfold Eval.stateAfter at hd hp
  cases hst : m st with
  | ok a st' =>
    rw [hst] at hd hp
    exact .ok (hR a) (hd.trans hdepth) (Nat.le_trans (Nat.le_of_eq hp) hpeak)
  | error x st' =>
    rw [hst] at hd hp
    exact .error (hd.trans hdepth) (Nat.le_trans (Nat.le_of_eq hp) hpeak)

/-- Evaluations with two limits, both with `k` open calls. -/
def betweenLimits (small big k : Nat) : Comparison where
  toPairing := .same
  step w R n m := Agree small big k (R w) n m ∧ m.Rises fun b => ∃ a, R w a b
  pure h := ⟨fun _ hdepth hpeak => .ok h hdepth hpeak, rising.pure h⟩
  bind hm hf := ⟨hm.1.bind hm.2 (fun _ _ h => (hf trivial h).1) fun _ _ h => (hf trivial h).2,
    hm.2.bind fun _ ⟨_, ha⟩ => (hf trivial ha).2⟩
  fault e := ⟨fun _ hdepth hpeak => .error hdepth hpeak, rising.fault e⟩
  leaveWith h := ⟨fun _ hdepth hpeak => h ▸ .error hdepth hpeak, rising.leaveWith h⟩
  lookUp hname h := ⟨h ▸ Agree.refl (fun _ => rfl) fun st => by
    rw [Eval.stateAfter_lookUp]; exact ⟨rfl, rfl⟩, rising.lookUp (w := ()) hname h⟩
  assign name h h' := ⟨h ▸ h' ▸ Agree.refl (fun _ => trivial) fun _ => ⟨rfl, rfl⟩,
    rising.assign (w := ()) name h h'⟩
  makeFunction params _ hreads h := ⟨h ▸ Agree.refl (fun _ => rfl) fun _ => ⟨rfl, rfl⟩,
    rising.makeFunction (w := ()) params hreads h⟩
  openScope {_ f g args args'} h hargs := by
    obtain rfl : f = g := Value.function.inj h
    obtain rfl : args = args' := List.forall₂_eq_eq_eq ▸ hargs
    exact ⟨Agree.refl (fun _ => rfl) fun _ => ⟨rfl, rfl⟩,
      rising.openScope (w := ()) (f := f) (g := f) rfl (List.forall₂_same.2 fun _ _ => rfl)⟩

theorem eq_of_rel_eq {a b : Option Value} (h : Option.Rel Eq a b) : a = b := by
  cases h with
  | none => rfl
  | some h => rw [h]

/-- The body of a call runs with one more call open. -/
theorem Agree.asCall {n m : Eval (Option Value)}
    (h : Agree small big (k + 1) (Option.Rel Eq) n m) (hk : k < small) :
    Agree small big k Eq (Eval.asCall n) (Eval.asCall m) := by
  intro st hdepth hpeak
  have hbody := h st.enter (congrArg (· + 1) hdepth) (Nat.max_le.2 ⟨hpeak, hdepth ▸ hk⟩)
  unfold Eval.asCall
  generalize hn : n st.enter = r at hbody
  generalize hm : m st.enter = r' at hbody
  cases hbody with
  | ok hab hdepth hpeak => exact .ok (by rw [eq_of_rel_eq hab]) (State.depth_leave hdepth) hpeak
  | @error x st' hdepth hpeak =>
    cases x with
    | returned v => exact .ok rfl (State.depth_leave hdepth) hpeak
    | fault e => exact .error (State.depth_leave hdepth) hpeak
  | tooDeep hr =>
    refine .tooDeep ?_
    match r', hr with
    | .ok _ _, hr => exact hr
    | .error (.returned _) _, hr => exact hr.resolve_right nofun
    | .error (.fault e) _, hr => exact hr

/-- **Calls with two limits**, where `k` calls are open already. -/
theorem betweenLimits_invoke (hle : small ≤ big) (budget : Nat) : ∀ {k : Nat}, k + budget = small →
    (betweenLimits small big k).Calls (Closure.invoke small budget)
      (Closure.invoke big (big - k)) := by
  induction budget with
  | zero =>
    intro k hk w f g args args' h hargs
    refine ⟨fun st hdepth _ => .tooDeep ?_, @rising_invoke big (big - k) () f g args args' h hargs⟩
    cases hbig : big - k with
    | zero => exact .inr rfl
    | succ rest =>
      -- The second call is opened, and then `k + 1` calls are open at once.
      have hpeak := Eval.Rises.peak_enter_le
        (rising.run (w := ()) (rising_invoke big rest) h hargs) st
      have hopen : st.depth + 1 ≤ st.enter.peak := Nat.le_max_right _ _
      refine exceeds_of_lt_peak (Nat.lt_of_lt_of_le ?_ (Nat.le_trans hopen hpeak))
      omega
  | succ budget ih =>
    intro k hk w f g args args' h hargs
    refine ⟨?_, @rising_invoke big (big - k) () f g args args' h hargs⟩
    have hcalls := ih (k := k + 1) (by omega)
    have hbody := (betweenLimits small big (k + 1)).run (w := ()) hcalls h hargs
    rw [show big - k = big - (k + 1) + 1 by omega]
    exact hbody.1.asCall (by omega)

/-! ## Runs -/

namespace Program

/-- Of two runs of a program with different limits, the first is like the second and keeps to the
smaller limit, or it stops there and the second does not keep to it. -/
theorem run_limits (hle : small ≤ big) (p : Program) (scope : ScopeId) (store : Store) :
    (p.run small scope (.ofStore store) = p.run big scope (.ofStore store) ∧
        (p.run big scope (.ofStore store)).2.peak ≤ small) ∨
      ((p.run small scope (.ofStore store)).1 = .error (.tooDeep small) ∧
        (small < (p.run big scope (.ofStore store)).2.peak ∨
          (p.run big scope (.ofStore store)).1 = .error (.tooDeep big))) := by
  have hcalls := betweenLimits_invoke hle small (k := 0) (Nat.zero_add small)
  have hnone : (betweenLimits small big 0).result () none none := .none
  have h := ((betweenLimits small big 0).stmts hcalls p.statements (i := scope)
    (fun _ _ => trivial) rfl hnone).1 (.ofStore store) rfl (Nat.zero_le _)
  rw [Nat.sub_zero] at h
  change Outcomes _ _ _ (Option.Rel Eq) _ _ at h
  unfold run
  rw [show small - (State.ofStore store).depth = small from rfl,
    show big - (State.ofStore store).depth = big from rfl]
  generalize Stmt.execAll (Closure.invoke small small) scope none p.statements _ = r at h ⊢
  generalize Stmt.execAll (Closure.invoke big big) scope none p.statements _ = r' at h ⊢
  cases h with
  | ok hab _ hpeak =>
    rw [eq_of_rel_eq hab]
    exact .inl ⟨rfl, hpeak⟩
  | @error x st _ hpeak => cases x <;> exact .inl ⟨rfl, hpeak⟩
  | tooDeep hr =>
    refine .inr ⟨rfl, ?_⟩
    match r', hr with
    | .ok _ _, hr => exact .inl hr
    | .error (.returned _) _, hr => exact .inl (hr.resolve_right nofun)
    | .error (.fault e) _, hr =>
      exact hr.imp_right fun he => congrArg Except.error (Exit.fault.inj he)

/-- **The peak of a run is the least limit under which it is the same run.** A run that does not
stop at its limit `D` keeps to it; with every limit that its peak keeps to, it ends alike and leaves
the same store; with every smaller limit `d` it stops with the fault that names `d`. -/
theorem peak_least_limit (p : Program) (scope : ScopeId) (store : Store) (D : Nat)
    (h : ∀ n, (p.run D scope (.ofStore store)).1 ≠ .error (.tooDeep n)) :
    (p.run D scope (.ofStore store)).2.peak ≤ D ∧
      (∀ d, (p.run D scope (.ofStore store)).2.peak ≤ d →
        p.run d scope (.ofStore store) = p.run D scope (.ofStore store)) ∧
      ∀ d, d < (p.run D scope (.ofStore store)).2.peak →
        (p.run d scope (.ofStore store)).1 = .error (.tooDeep d) := by
  have hle : (p.run D scope (.ofStore store)).2.peak ≤ D := by
    rcases run_limits (Nat.le_refl D) p scope store with ⟨-, hpeak⟩ | ⟨hstop, -⟩
    · exact hpeak
    · exact absurd hstop (h D)
  refine ⟨hle, fun d hd => ?_, fun d hd => ?_⟩
  · rcases Nat.le_total d D with hdD | hDd
    · rcases run_limits hdD p scope store with ⟨heq, -⟩ | ⟨-, hbeyond | hstop⟩
      · exact heq
      · omega
      · exact absurd hstop (h D)
    · rcases run_limits hDd p scope store with ⟨heq, -⟩ | ⟨hstop, -⟩
      · exact heq.symm
      · exact absurd hstop (h D)
  · rcases run_limits (Nat.le_of_lt (Nat.lt_of_lt_of_le hd hle)) p scope store with
      ⟨-, hpeak⟩ | ⟨hstop, -⟩
    · omega
    · exact hstop

/-- Counts down to zero, and then makes a call without an argument. -/
def countdown : Program :=
  ⟨[.bind "f" (.fn ["n"] [.expr (.cond (.binary .equal (.ident "n") (.int 0))
      [.expr (.call (.ident "f") [])]
      (some [.expr (.call (.ident "f") [.binary .subtract (.ident "n") (.int 1)])]))]),
    .expr (.call (.ident "f") [.int 1])]⟩

/-- The call that does not fit counts in the peak, which is three here. -/
theorem peak_least_limit_countdown :
    let state := State.ofStore (Store.empty.openScope [] none).2
    (countdown.run 9 0 state).1 = .error (.argumentCount 0 1) ∧
      (countdown.run 3 0 state).1 = .error (.argumentCount 0 1) ∧
      (countdown.run 2 0 state).1 = .error (.tooDeep 2) := by
  intro state
  have hrun : (countdown.run 9 0 state).1 = .error (.argumentCount 0 1) := by decide +kernel
  have hpeak : (countdown.run 9 0 state).2.peak = 3 := by decide +kernel
  obtain ⟨-, hsame, hstop⟩ := peak_least_limit countdown 0 (Store.empty.openScope [] none).2 9
    fun n hn => Fault.noConfusion (Except.error.inj (hrun.symm.trans hn))
  exact ⟨hrun, (congrArg Prod.fst (hsame 3 (Nat.le_of_eq hpeak))).trans hrun,
    hstop 2 (hpeak ▸ Nat.lt_succ_self 2)⟩

end Program

end Limits

end Sprig

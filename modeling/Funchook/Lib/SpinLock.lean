import Funchook.Lib.Run
import Mathlib.Logic.Function.Basic
import Mathlib.Logic.Relation

/-!
# A spin lock around calls

Threads make calls. A call takes the lock by an exchange that may fail for no reason, waits while
it finds the lock taken, works on the shared state step by step while it has the lock, and gives
the lock back. Between any two steps of a thread the other threads take as many steps as they like.

What comes out is as if the calls had been made one after the other, in the order in which they
took the lock, and each of them exactly once.
-/

namespace SpinLock

open Runs

variable {ι σ κ φ : Type*}

/-! ## Calls -/

/-- The work of the calls, from the first phase of a call to one in which it is finished. -/
structure Work (σ κ φ : Type*) where
  start : κ → φ
  step : κ → σ × φ → σ × φ → Prop
  finished : κ → φ → Prop

/-- The call has been begun at `s`, and no other thread has worked since. -/
def Work.Partial (W : Work σ κ φ) (c : κ) (s : σ) (x : σ × φ) : Prop :=
  Relation.ReflTransGen (W.step c) (s, W.start c) x

/-- The whole call. -/
def Work.Call (W : Work σ κ φ) (s : σ) (c : κ) (s' : σ) : Prop :=
  ∃ p, W.Partial c s (s', p) ∧ W.finished c p

/-- The calls with the threads that make them, and what a thread has checked before it asks for the
lock: no call of another thread makes the check void. -/
structure System (ι σ κ φ : Type*) extends Work σ κ φ where
  owns : ι → κ → Prop
  checked : κ → σ → Prop
  stable : ∀ {t t' c c' s p s' p'}, t ≠ t' → owns t c → owns t' c' → checked c s →
    step c' (s, p) (s', p') → checked c s'

/-! ## Threads -/

/-- Where a thread is: outside of any call, before the exchange, in the loop that waits for the
lock, or at work. -/
inductive Pc (κ φ : Type*) where
  | outside
  | attempting (c : κ)
  | waiting (c : κ)
  | inside (c : κ) (p : φ)

/-- The call that a thread is making. -/
def Pc.call : Pc κ φ → Option κ
  | .outside => none
  | .attempting c => some c
  | .waiting c => some c
  | .inside c _ => some c

/-- The thread has not got the lock yet. -/
def Pc.wants : Pc κ φ → Option κ
  | .outside => none
  | .attempting c => some c
  | .waiting c => some c
  | .inside _ _ => none

structure State (ι σ κ φ : Type*) where
  locked : Bool
  pc : ι → Pc κ φ
  shared : σ

def State.start (s₀ : σ) : State ι σ κ φ := ⟨false, fun _ => .outside, s₀⟩

/-- What a thread does next. -/
inductive Act (κ : Type*) where
  | call (c : κ)
  | acquire (c : κ)
  | fail
  | spin
  | retry
  | work
  | release (c : κ)

/-- The call that gives the lock back. -/
def Act.released : Act κ → Option κ
  | .release c => some c
  | _ => none

/-- The call that takes the lock. -/
def Act.acquired : Act κ → Option κ
  | .acquire c => some c
  | _ => none

/-- The calls that have given the lock back, in their order. -/
def completed (es : List (ι × Act κ)) : List κ := es.filterMap fun e => e.2.released

/-- The calls that have taken the lock, in their order. -/
def acquired (es : List (ι × Act κ)) : List κ := es.filterMap fun e => e.2.acquired

theorem completed_concat (es : List (ι × Act κ)) (e : ι × Act κ) :
    completed (es ++ [e]) = completed es ++ e.2.released.toList := by
  simp only [completed, List.filterMap_append]
  cases h : e.2.released <;> simp [h]

theorem acquired_concat (es : List (ι × Act κ)) (e : ι × Act κ) :
    acquired (es ++ [e]) = acquired es ++ e.2.acquired.toList := by
  simp only [acquired, List.filterMap_append]
  cases h : e.2.acquired <;> simp [h]

variable [DecidableEq ι]

def State.setPc (S : State ι σ κ φ) (t : ι) (pc : Pc κ φ) : State ι σ κ φ :=
  { S with pc := Function.update S.pc t pc }

/-- One step of one thread. The exchange may fail although the lock is free. -/
inductive System.Step (sys : System ι σ κ φ) (S : State ι σ κ φ) :
    ι × Act κ → State ι σ κ φ → Prop where
  | call (t : ι) (c : κ) (hpc : S.pc t = .outside) (howns : sys.owns t c)
      (hchecked : sys.checked c S.shared) : Step sys S (t, .call c) (S.setPc t (.attempting c))
  | acquire (t : ι) (c : κ) (hpc : S.pc t = .attempting c) (hfree : S.locked = false) :
      Step sys S (t, .acquire c) ({ S with locked := true }.setPc t (.inside c (sys.start c)))
  | fail (t : ι) (c : κ) (hpc : S.pc t = .attempting c) :
      Step sys S (t, .fail) (S.setPc t (.waiting c))
  | spin (t : ι) (c : κ) (hpc : S.pc t = .waiting c) (htaken : S.locked = true) :
      Step sys S (t, .spin) S
  | retry (t : ι) (c : κ) (hpc : S.pc t = .waiting c) (hfree : S.locked = false) :
      Step sys S (t, .retry) (S.setPc t (.attempting c))
  | work (t : ι) (c : κ) (p : φ) (s' : σ) (p' : φ) (hpc : S.pc t = .inside c p)
      (hstep : sys.step c (S.shared, p) (s', p')) :
      Step sys S (t, .work) ({ S with shared := s' }.setPc t (.inside c p'))
  | release (t : ι) (c : κ) (p : φ) (hpc : S.pc t = .inside c p) (hdone : sys.finished c p) :
      Step sys S (t, .release c) ({ S with locked := false }.setPc t .outside)

/-- A call that takes the lock meets the condition then. -/
def atAcquire (cond : σ → κ → Prop) (S : State ι σ κ φ) (e : ι × Act κ) : Prop :=
  ∀ c, e.2 = .acquire c → cond S.shared c

/-- The executions of the threads. -/
def System.Execution (sys : System ι σ κ φ) (cond : σ → κ → Prop) (s₀ : σ) :
    List (ι × Act κ) → State ι σ κ φ → Prop :=
  Trace sys.Step (atAcquire cond) (.start s₀)

theorem System.Execution.step {sys : System ι σ κ φ} {cond : σ → κ → Prop} {s₀ : σ}
    {es : List (ι × Act κ)} {S S' : State ι σ κ φ} (h : sys.Execution cond s₀ es S)
    {e : ι × Act κ} (hcond : atAcquire cond S e) (hstep : sys.Step S e S') :
    sys.Execution cond s₀ (es ++ [e]) S' :=
  Trace.call h e hcond hstep

@[simp] theorem State.setPc_locked (S : State ι σ κ φ) (t : ι) (pc : Pc κ φ) :
    (S.setPc t pc).locked = S.locked := rfl

@[simp] theorem State.setPc_shared (S : State ι σ κ φ) (t : ι) (pc : Pc κ φ) :
    (S.setPc t pc).shared = S.shared := rfl

@[simp] theorem State.setPc_self (S : State ι σ κ φ) (t : ι) (pc : Pc κ φ) :
    (S.setPc t pc).pc t = pc :=
  Function.update_self ..

theorem State.setPc_of_ne (S : State ι σ κ φ) {t t' : ι} (pc : Pc κ φ) (h : t' ≠ t) :
    (S.setPc t pc).pc t' = S.pc t' :=
  Function.update_of_ne h ..

/-! ## Who may have the lock -/

def Pc.Inside (pc : Pc κ φ) : Prop := ∃ c p, pc = .inside c p

/-- A check that was made before the call still holds when the lock is taken. -/
structure Waits (sys : System ι σ κ φ) (S : State ι σ κ φ) : Prop where
  owned : ∀ t c, (S.pc t).call = some c → sys.owns t c
  checked : ∀ t c, (S.pc t).wants = some c → sys.checked c S.shared

theorem Pc.call_of_wants {pc : Pc κ φ} {c : κ} (h : pc.wants = some c) : pc.call = some c := by
  cases pc with
  | outside => cases h
  | attempting => exact h
  | waiting => exact h
  | inside => cases h

omit [DecidableEq ι] in
theorem waits_start (sys : System ι σ κ φ) (s₀ : σ) : Waits sys (.start s₀) where
  owned := fun _ _ h => by cases h
  checked := fun _ _ h => by cases h

/-- A thread that changes its place only, and makes no call that it does not own. -/
theorem Waits.setPc {sys : System ι σ κ φ} {S : State ι σ κ φ} (h : Waits sys S) {t : ι}
    {pc : Pc κ φ} {locked : Bool} (howned : ∀ c, pc.call = some c → sys.owns t c)
    (hchecked : ∀ c, pc.wants = some c → sys.checked c S.shared) :
    Waits sys ({ S with locked := locked }.setPc t pc) := by
  constructor
  · intro t' c hc
    by_cases ht : t' = t
    · subst ht
      rw [State.setPc_self] at hc
      exact howned c hc
    · rw [State.setPc_of_ne _ _ ht] at hc
      exact h.owned t' c hc
  · intro t' c hc
    by_cases ht : t' = t
    · subst ht
      rw [State.setPc_self] at hc
      exact hchecked c hc
    · rw [State.setPc_of_ne _ _ ht] at hc
      exact h.checked t' c hc

theorem Waits.step {sys : System ι σ κ φ} {S S' : State ι σ κ φ} {e : ι × Act κ}
    (h : Waits sys S) (hstep : sys.Step S e S') : Waits sys S' := by
  cases hstep with
  | call t c hpc howns hchecked =>
    exact h.setPc (fun _ hc => by cases hc; exact howns) fun _ hc => by cases hc; exact hchecked
  | acquire t c hpc hfree =>
    refine h.setPc (fun _ hc => ?_) fun _ hc => by cases hc
    exact h.owned t _ (by rw [hpc]; exact hc)
  | fail t c hpc =>
    refine h.setPc (fun _ hc => ?_) fun _ hc => ?_
    · exact h.owned t _ (by rw [hpc]; exact hc)
    · exact h.checked t _ (by rw [hpc]; exact hc)
  | spin t c hpc htaken => exact h
  | retry t c hpc hfree =>
    refine h.setPc (fun _ hc => ?_) fun _ hc => ?_
    · exact h.owned t _ (by rw [hpc]; exact hc)
    · exact h.checked t _ (by rw [hpc]; exact hc)
  | work t c p s' p' hpc hwork =>
    have howns : sys.owns t c := h.owned t c (by rw [hpc]; rfl)
    constructor
    · intro t' c' hc
      by_cases ht : t' = t
      · subst ht
        rw [State.setPc_self] at hc
        cases hc
        exact howns
      · rw [State.setPc_of_ne _ _ ht] at hc
        exact h.owned t' c' hc
    · intro t' c' hc
      by_cases ht : t' = t
      · subst ht
        rw [State.setPc_self] at hc
        cases hc
      · rw [State.setPc_of_ne _ _ ht] at hc
        -- the check of `t'` survives the work of `t`
        exact sys.stable ht (h.owned t' c' (Pc.call_of_wants hc)) howns (h.checked t' c' hc) hwork
  | release t c p hpc hdone => exact h.setPc (fun _ hc => by cases hc) fun _ hc => by cases hc

/-! ## Serial executions -/

variable (sys : System ι σ κ φ) (cond : σ → κ → Prop) (s₀ : σ)

/-- The call may be made alone at `s`. -/
def System.Admits (s : σ) (c : κ) : Prop := sys.checked c s ∧ cond s c

/-- The shared state is that of calls made one after the other, in the order in which they took the
lock, and of the begun part of the call that has the lock. -/
inductive Serial (es : List (ι × Act κ)) (S : State ι σ κ φ) : Prop where
  | free (hfree : S.locked = false) (hnone : ∀ t, ¬ (S.pc t).Inside)
      (hacquired : acquired es = completed es)
      (htrace : Trace sys.Call (sys.Admits cond) s₀ (completed es) S.shared)
  | taken (t : ι) (c : κ) (p : φ) (s : σ) (hlocked : S.locked = true)
      (hpc : S.pc t = .inside c p) (hothers : ∀ t', t' ≠ t → ¬ (S.pc t').Inside)
      (hacquired : acquired es = completed es ++ [c])
      (htrace : Trace sys.Call (sys.Admits cond) s₀ (completed es) s)
      (hadmits : sys.Admits cond s c) (hbegun : sys.Partial c s (S.shared, p))

variable {sys cond s₀}

omit [DecidableEq ι] in
theorem serial_start : Serial sys cond s₀ [] (.start s₀) :=
  .free rfl (fun _ ⟨_, _, h⟩ => by cases h) rfl .start

/-- A step of a thread that has not got the lock, and does not take it. -/
theorem Serial.setPc {es : List (ι × Act κ)} {S : State ι σ κ φ} (h : Serial sys cond s₀ es S)
    {e : ι × Act κ} {t : ι} {pc : Pc κ φ} (hreleased : e.2.released = none)
    (htaken : e.2.acquired = none) (hbefore : ¬ (S.pc t).Inside) (hafter : ¬ pc.Inside) :
    Serial sys cond s₀ (es ++ [e]) (S.setPc t pc) := by
  have hcompleted' : completed (es ++ [e]) = completed es := by
    simp [completed_concat, hreleased]
  have hacquired' : acquired (es ++ [e]) = acquired es := by
    simp [acquired_concat, htaken]
  cases h with
  | free hfree hnone hsame htrace =>
    refine .free hfree (fun t' => ?_) (by rw [hacquired', hcompleted', hsame])
      (by rw [hcompleted']; exact htrace)
    by_cases ht : t' = t
    · subst ht
      rwa [State.setPc_self]
    · rw [State.setPc_of_ne _ _ ht]
      exact hnone t'
  | taken t₀ c p s hlocked hpc hothers hlast htrace hadmits hbegun =>
    have hne : t₀ ≠ t := by
      rintro rfl
      exact hbefore ⟨c, p, hpc⟩
    refine .taken t₀ c p s hlocked (by rw [State.setPc_of_ne _ _ hne, hpc]) (fun t' ht' => ?_)
      (by rw [hacquired', hcompleted', hlast]) (by rw [hcompleted']; exact htrace) hadmits hbegun
    by_cases ht : t' = t
    · subst ht
      rwa [State.setPc_self]
    · rw [State.setPc_of_ne _ _ ht]
      exact hothers t' ht'

/-- **Step.** -/
theorem Serial.step {es : List (ι × Act κ)} {S S' : State ι σ κ φ} {e : ι × Act κ}
    (h : Serial sys cond s₀ es S) (hwaits : Waits sys S) (hcond : atAcquire cond S e)
    (hstep : sys.Step S e S') : Serial sys cond s₀ (es ++ [e]) S' := by
  cases hstep with
  | call t c hpc howns hchecked =>
    exact h.setPc rfl rfl (by rw [hpc]; rintro ⟨_, _, h⟩; cases h) (by rintro ⟨_, _, h⟩; cases h)
  | fail t c hpc =>
    exact h.setPc rfl rfl (by rw [hpc]; rintro ⟨_, _, h⟩; cases h) (by rintro ⟨_, _, h⟩; cases h)
  | retry t c hpc hfree =>
    exact h.setPc rfl rfl (by rw [hpc]; rintro ⟨_, _, h⟩; cases h) (by rintro ⟨_, _, h⟩; cases h)
  | spin t c hpc htaken =>
    have hsame : S.setPc t (S.pc t) = S := by
      cases S
      simp [State.setPc]
    have hwaiting : ¬ (S.pc t).Inside := by
      rw [hpc]
      rintro ⟨_, _, h⟩
      cases h
    have hspin := h.setPc (e := (t, .spin)) (t := t) rfl rfl hwaiting hwaiting
    rwa [hsame] at hspin
  | acquire t c hpc hfree =>
    cases h with
    | taken _ _ _ _ hlocked => rw [hlocked] at hfree; cases hfree
    | free _ hnone hacquired htrace =>
      refine .taken t c (sys.start c) S.shared rfl (State.setPc_self ..) (fun t' ht' => ?_) ?_ ?_
        ⟨hwaits.checked t c (by rw [hpc]; rfl), hcond c rfl⟩ .refl
      · rw [State.setPc_of_ne _ _ ht']
        exact hnone t'
      · simp [acquired_concat, completed_concat, hacquired, Act.acquired, Act.released]
      · simpa [completed_concat, Act.released] using htrace
  | work t c p s' p' hpc hwork =>
    cases h with
    | free _ hnone => exact absurd ⟨c, p, hpc⟩ (hnone t)
    | taken t₀ c₀ p₀ s hlocked hpc₀ hothers hacquired htrace hadmits hbegun =>
      have ht : t = t₀ := by
        by_contra hne
        exact hothers t hne ⟨c, p, hpc⟩
      subst ht
      cases hpc₀.symm.trans hpc
      refine .taken t c p' s hlocked (State.setPc_self ..) (fun t' ht' => ?_) ?_ ?_ hadmits
        (hbegun.tail hwork)
      · rw [State.setPc_of_ne _ _ ht']
        exact hothers t' ht'
      · simpa [acquired_concat, completed_concat, Act.acquired, Act.released] using hacquired
      · simpa [completed_concat, Act.released] using htrace
  | release t c p hpc hdone =>
    cases h with
    | free _ hnone => exact absurd ⟨c, p, hpc⟩ (hnone t)
    | taken t₀ c₀ p₀ s hlocked hpc₀ hothers hacquired htrace hadmits hbegun =>
      have ht : t = t₀ := by
        by_contra hne
        exact hothers t hne ⟨c, p, hpc⟩
      subst ht
      cases hpc₀.symm.trans hpc
      refine .free rfl (fun t' => ?_) ?_ ?_
      · by_cases ht : t' = t
        · subst ht
          rw [State.setPc_self]
          rintro ⟨_, _, h⟩
          cases h
        · rw [State.setPc_of_ne _ _ ht]
          exact hothers t' ht
      · simpa [acquired_concat, completed_concat, Act.acquired, Act.released] using hacquired
      · have hcall := htrace.call c hadmits ⟨p, hbegun, hdone⟩
        simpa [completed_concat, Act.released] using hcall

/-- **Execution.** Whatever the interleaving, the threads are serial. -/
theorem System.Execution.serial {es : List (ι × Act κ)} {S : State ι σ κ φ}
    (h : sys.Execution cond s₀ es S) : Serial sys cond s₀ es S := by
  have hboth : Waits sys S ∧ Serial sys cond s₀ es S := by
    induction h with
    | start => exact ⟨waits_start sys s₀, serial_start⟩
    | call _ e hcond hstep ih => exact ⟨ih.1.step hstep, ih.2.step ih.1 hcond hstep⟩
  exact hboth.2

/-- No two threads are at work at once. -/
theorem Serial.exclusive {es : List (ι × Act κ)} {S : State ι σ κ φ}
    (h : Serial sys cond s₀ es S) {t t' : ι} (ht : (S.pc t).Inside) (ht' : (S.pc t').Inside) :
    t = t' := by
  cases h with
  | free _ hnone => exact absurd ht (hnone t)
  | taken t₀ _ _ _ _ _ hothers =>
    have heq : ∀ u, (S.pc u).Inside → u = t₀ := by
      intro u hu
      by_contra hne
      exact hothers u hne hu
    rw [heq t ht, heq t' ht']

/-- Alone, a call that may be made never gets stuck. -/
def System.Progresses (sys : System ι σ κ φ) (cond : σ → κ → Prop) : Prop :=
  ∀ s c x, sys.Admits cond s c → sys.Partial c s x → sys.finished c x.2 ∨ ∃ y, sys.step c x y

/-- **No deadlock.** While a thread makes a call, some thread can do more than wait. -/
theorem Serial.progress {es : List (ι × Act κ)} {S : State ι σ κ φ}
    (h : Serial sys cond s₀ es S) (hprogress : sys.Progresses cond) {t : ι}
    (ht : S.pc t ≠ .outside) : ∃ e S', sys.Step S e S' ∧ e.2 ≠ .fail ∧ e.2 ≠ .spin := by
  cases h with
  | free hfree hnone =>
    cases hpc : S.pc t with
    | outside => exact absurd hpc ht
    | attempting c => exact ⟨_, _, .acquire t c hpc hfree, by simp, by simp⟩
    | waiting c => exact ⟨_, _, .retry t c hpc hfree, by simp, by simp⟩
    | inside c p => exact absurd ⟨c, p, hpc⟩ (hnone t)
  | taken u c p s hlocked hpc hothers hacquired htrace hadmits hbegun =>
    rcases hprogress s c _ hadmits hbegun with hdone | ⟨⟨s', p'⟩, hwork⟩
    · exact ⟨_, _, .release u c p hpc hdone, by simp, by simp⟩
    · exact ⟨_, _, .work u c p s' p' hpc hwork, by simp, by simp⟩

end SpinLock

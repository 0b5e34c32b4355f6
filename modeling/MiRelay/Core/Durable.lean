import Mathlib

/-!
# Procedures with crash points

A procedure runs against a durable state, makes one atomic change after another
and ends with a value or an error. The changes are events of a system that says
what each of them does; a run reports the events it caused, hence a crash or a
failing operation leaves a prefix of them. `Meets` is the specification of one
run: a condition on every event in the state it meets, and one on the end. The
rules are equivalences, hence rewriting with them reduces a specification to
conditions on the single events.
-/

namespace MiRelay

section Events

variable {σ ι : Type} (apply : σ → ι → σ)

/-- The state after a list of events. -/
def after (s : σ) (l : List ι) : σ := l.foldl apply s

@[simp] theorem after_nil (s : σ) : after apply s [] = s := rfl

@[simp] theorem after_cons (s : σ) (e : ι) (l : List ι) :
    after apply s (e :: l) = after apply (apply s e) l := rfl

@[simp] theorem after_append (s : σ) (l m : List ι) :
    after apply s (l ++ m) = after apply (after apply s l) m :=
  List.foldl_append ..

/-- Every event of a list has the condition in the state it meets. -/
def Guarded (G : σ → ι → Prop) : σ → List ι → Prop
  | _, [] => True
  | s, e :: l => G s e ∧ Guarded G (apply s e) l

variable {apply} {G G' : σ → ι → Prop} {s : σ} {l m : List ι}

@[simp] theorem guarded_nil : Guarded apply G s [] ↔ True := Iff.rfl

@[simp] theorem guarded_cons {e : ι} :
    Guarded apply G s (e :: l) ↔ G s e ∧ Guarded apply G (apply s e) l := Iff.rfl

@[simp] theorem guarded_append :
    Guarded apply G s (l ++ m) ↔ Guarded apply G s l ∧ Guarded apply G (after apply s l) m := by
  induction l generalizing s with
  | nil => simp
  | cons e l ih => simp [ih, and_assoc]

/-- What is cut off after some of the events was guarded so far. -/
theorem Guarded.take (h : Guarded apply G s l) (k : Nat) : Guarded apply G s (l.take k) := by
  rw [← List.take_append_drop k l, guarded_append] at h
  exact h.1

theorem Guarded.mono (h : Guarded apply G s l) (hG : ∀ s e, G s e → G' s e) :
    Guarded apply G' s l := by
  induction l generalizing s with
  | nil => trivial
  | cons e l ih => exact ⟨hG _ _ h.1, ih h.2⟩

/-- A guard that looks at the events alone holds of each of them. -/
theorem Guarded.mem {P : ι → Prop} (h : Guarded apply (fun _ e => P e) s l) : ∀ e ∈ l, P e := by
  induction l generalizing s with
  | nil => exact fun e he => absurd he List.not_mem_nil
  | cons first rest ih =>
    intro e he
    rcases List.mem_cons.mp he with rfl | he
    · exact h.1
    · exact ih h.2 e he

theorem Guarded.of_mem {P : ι → Prop} (h : ∀ e ∈ l, P e) : Guarded apply (fun _ e => P e) s l := by
  induction l generalizing s with
  | nil => trivial
  | cons first rest ih =>
    rw [List.forall_mem_cons] at h
    exact ⟨h.1, ih h.2⟩

theorem Guarded.and (h : Guarded apply G s l) (h' : Guarded apply G' s l) :
    Guarded apply (fun s e => G s e ∧ G' s e) s l := by
  induction l generalizing s with
  | nil => trivial
  | cons e l ih => exact ⟨⟨h.1, h'.1⟩, ih h.2 h'.2⟩

/-- What every guarded event preserves holds before each of them. -/
theorem Guarded.strengthen {I : σ → Prop} (h : Guarded apply G s l) (hs : I s)
    (hstep : ∀ s e, I s → G s e → I (apply s e)) :
    Guarded apply (fun s e => G s e ∧ I s) s l := by
  induction l generalizing s with
  | nil => trivial
  | cons e l ih => exact ⟨⟨h.1, hs⟩, ih h.2 (hstep s e hs h.1)⟩

/-- What every guarded event preserves holds after a guarded list of events. -/
theorem Guarded.invariant {I : σ → Prop} (h : Guarded apply G s l) (hs : I s)
    (hstep : ∀ s e, I s → G s e → I (apply s e)) : I (after apply s l) := by
  induction l generalizing s with
  | nil => exact hs
  | cons e l ih => exact ih h.2 (hstep _ _ hs h.1)

/-- A preorder between the states before and after every guarded event relates the states
before and after a guarded list. -/
theorem Guarded.rel {R : σ → σ → Prop} (h : Guarded apply G s l) (hrefl : ∀ s, R s s)
    (htrans : ∀ s t u, R s t → R t u → R s u) (hstep : ∀ s e, G s e → R s (apply s e)) :
    R s (after apply s l) :=
  h.invariant (I := R s) (hrefl s) fun t e ht he => htrans s t _ ht (hstep t e he)

/-- A condition on the events so far and the state that every guarded event preserves. -/
theorem Guarded.history {I : List ι → σ → Prop} (h : Guarded apply G s l) (hs : I m s)
    (hstep : ∀ m s e, I m s → G s e → I (m ++ [e]) (apply s e)) : I (m ++ l) (after apply s l) := by
  induction l generalizing s m with
  | nil =>
    rw [List.append_nil]
    exact hs
  | cons e l ih =>
    have hrest := ih h.2 (hstep _ _ _ hs h.1)
    rwa [List.append_assoc, List.singleton_append] at hrest

end Events

/-- What one run of a procedure leaves: the events it caused and the value or the error. -/
structure Outcome (ι ε α : Type) where
  /-- The atomic changes, in order. -/
  events : List ι
  /-- The value or the error it returned. -/
  result : Except ε α

/-- A procedure over the states `σ` with errors `ε`. -/
def Proc {σ ι : Type} (_ : σ → ι → σ) (ε α : Type) : Type := σ → Outcome ι ε α

namespace Proc

variable {σ ι ε α β : Type} {apply : σ → ι → σ}

/-- Run the second procedure from where the first returned, unless that failed. -/
def andThen (p : Proc apply ε α) (f : α → Proc apply ε β) : Proc apply ε β := fun s =>
  let o := p s
  match o.result with
  | .error e => ⟨o.events, .error e⟩
  | .ok a =>
    let o' := f a (after apply s o.events)
    ⟨o.events ++ o'.events, o'.result⟩

instance : Monad (Proc apply ε) where
  pure a := fun _ => ⟨[], .ok a⟩
  bind := andThen

/-- Stop with an error; the state stays as it is. -/
def fail (e : ε) : Proc apply ε α := fun _ => ⟨[], .error e⟩

/-- Read the state. -/
def get : Proc apply ε σ := fun s => ⟨[], .ok s⟩

/-- One atomic change. -/
def emit (e : ι) : Proc apply ε Unit := fun _ => ⟨[e], .ok ()⟩

/-- The changes of others while the procedure waits. -/
def await (l : List ι) : Proc apply ε Unit := fun _ => ⟨l, .ok ()⟩

/-- A computation that touches no state. -/
def ofExcept (x : Except ε α) : Proc apply ε α := fun _ => ⟨[], x⟩

/-- Continue with the result of a procedure, an error included. -/
def attempt (p : Proc apply ε α) : Proc apply ε (Except ε α) := fun s =>
  let o := p s
  ⟨o.events, .ok o.result⟩

/-- Another party runs a procedure to its end, or is cut off after at most `k` events. -/
def upTo (p : Proc apply ε α) : Option Nat → Proc apply ε Unit
  | none => fun s => ⟨(p s).events, .ok ()⟩
  | some k => fun s => ⟨(p s).events.take k, .ok ()⟩

/-- The state in which the procedure returns. -/
def final (p : Proc apply ε α) (s : σ) : σ := after apply s (p s).events

/-- The state after at most `k` events. -/
def cut (p : Proc apply ε α) (s : σ) (k : Nat) : σ := after apply s ((p s).events.take k)

/-- Every event of the run from `s` has `G`, and the run returns with `Q`. -/
def Meets (p : Proc apply ε α) (s : σ) (G : σ → ι → Prop) (Q : Except ε α → σ → Prop) : Prop :=
  Guarded apply G s (p s).events ∧ Q (p s).result (p.final s)

section Rules

variable {s : σ} {G : σ → ι → Prop}

@[simp] theorem meets_pure {a : α} {Q : Except ε α → σ → Prop} :
    Meets (pure a : Proc apply ε α) s G Q ↔ Q (.ok a) s := by
  simp [Meets, pure, final]

@[simp] theorem meets_fail {e : ε} {Q : Except ε α → σ → Prop} :
    Meets (fail e : Proc apply ε α) s G Q ↔ Q (.error e) s := by
  simp [Meets, fail, final]

@[simp] theorem meets_get {Q : Except ε σ → σ → Prop} :
    Meets (get : Proc apply ε σ) s G Q ↔ Q (.ok s) s := by
  simp [Meets, get, final]

@[simp] theorem meets_emit {e : ι} {Q : Except ε Unit → σ → Prop} :
    Meets (emit e : Proc apply ε Unit) s G Q ↔ G s e ∧ Q (.ok ()) (apply s e) := by
  simp [Meets, emit, final]

@[simp] theorem meets_await {l : List ι} {Q : Except ε Unit → σ → Prop} :
    Meets (await l : Proc apply ε Unit) s G Q ↔
      Guarded apply G s l ∧ Q (.ok ()) (after apply s l) := by
  simp [Meets, await, final]

@[simp] theorem meets_ofExcept {x : Except ε α} {Q : Except ε α → σ → Prop} :
    Meets (ofExcept x : Proc apply ε α) s G Q ↔ Q x s := by
  simp [Meets, ofExcept, final]

/-- A sequence meets its specification when the first part reaches states from which the
second does. -/
@[simp] theorem meets_bind {p : Proc apply ε α} {f : α → Proc apply ε β}
    {Q : Except ε β → σ → Prop} :
    Meets (p >>= f) s G Q ↔ Meets p s G fun r t =>
      match r with
      | .ok a => Meets (f a) t G Q
      | .error e => Q (.error e) t := by
  simp only [Meets, final, bind, andThen]
  cases (p s).result with
  | error e => exact Iff.rfl
  | ok a => simp only [guarded_append, after_append, and_assoc]

@[simp] theorem meets_attempt {p : Proc apply ε α} {Q : Except ε (Except ε α) → σ → Prop} :
    Meets p.attempt s G Q ↔ Meets p s G fun r t => Q (.ok r) t := Iff.rfl

/-- Cut off anywhere, a guarded procedure has caused guarded events. -/
theorem Meets.upTo {p : Proc apply ε α} {Q : Except ε α → σ → Prop} (h : Meets p s G Q)
    (k : Option Nat) : Meets (p.upTo k) s G fun _ _ => True := by
  cases k with
  | none => exact ⟨h.1, trivial⟩
  | some k => exact ⟨h.1.take k, trivial⟩

theorem meets_ite {c : Prop} [Decidable c] {p q : Proc apply ε α} {Q : Except ε α → σ → Prop} :
    Meets (if c then p else q) s G Q ↔ (c → Meets p s G Q) ∧ (¬c → Meets q s G Q) := by
  by_cases h : c <;> simp [h]

/-- What holds of the value and the state when a procedure returns no error. -/
def OnSuccess (post : α → σ → Prop) (r : Except ε α) (t : σ) : Prop := ∀ a, r = .ok a → post a t

@[simp] theorem onSuccess_ok {post : α → σ → Prop} {a : α} {t : σ} :
    OnSuccess (ε := ε) post (.ok a) t ↔ post a t := by
  simp [OnSuccess]

@[simp] theorem onSuccess_error {post : α → σ → Prop} {e : ε} {t : σ} :
    OnSuccess post (.error e) t ↔ True := by
  simp [OnSuccess]

/-- A sequence meets a specification that asks nothing of errors when its parts do. -/
theorem Meets.bind {p : Proc apply ε α} {f : α → Proc apply ε β} {M : α → σ → Prop}
    {post : β → σ → Prop} (hp : Meets p s G (OnSuccess M))
    (hf : ∀ a t, M a t → Meets (f a) t G (OnSuccess post)) :
    Meets (p >>= f) s G (OnSuccess post) := by
  rw [meets_bind]
  refine ⟨hp.1, ?_⟩
  cases hr : (p s).result with
  | error e => simp
  | ok a => exact hf a _ (hp.2 a hr)

/-- The rule of a sequence, with what the first part establishes. -/
theorem Meets.seq {p : Proc apply ε α} {f : α → Proc apply ε β} {M : Except ε α → σ → Prop}
    {Q : Except ε β → σ → Prop} (hp : Meets p s G M)
    (hok : ∀ a t, M (.ok a) t → Meets (f a) t G Q)
    (herror : ∀ e t, M (.error e) t → Q (.error e) t) : Meets (p >>= f) s G Q := by
  rw [meets_bind]
  refine ⟨hp.1, ?_⟩
  have hM := hp.2
  cases hr : (p s).result with
  | error e =>
    rw [hr] at hM
    exact herror e _ hM
  | ok a =>
    rw [hr] at hM
    exact hok a _ hM

/-- A first part that meets, when it fails, what is asked of the whole. -/
theorem Meets.through {p : Proc apply ε α} {f : α → Proc apply ε β} {M : α → σ → Prop}
    {Q : Except ε β → σ → Prop}
    (hp : Meets p s G fun r t => (∀ a, r = .ok a → M a t) ∧ ∀ e, r = .error e → Q (.error e) t)
    (hf : ∀ a t, M a t → Meets (f a) t G Q) : Meets (p >>= f) s G Q :=
  hp.seq (fun a t h => hf a t (h.1 a rfl)) fun e _ h => h.2 e rfl

/-- The rule of a sequence that continues after an error. -/
theorem Meets.tried {p : Proc apply ε α} {f : Except ε α → Proc apply ε β}
    {M : Except ε α → σ → Prop} {Q : Except ε β → σ → Prop} (hp : Meets p s G M)
    (hf : ∀ r t, M r t → Meets (f r) t G Q) : Meets (attempt p >>= f) s G Q := by
  rw [meets_bind, meets_attempt]
  exact ⟨hp.1, hf _ _ hp.2⟩

/-- A check that may fail first. -/
theorem Meets.check {x : Except ε α} {f : α → Proc apply ε β} {post : β → σ → Prop}
    (hf : ∀ a, x = .ok a → Meets (f a) s G (OnSuccess post)) :
    Meets (ofExcept x >>= f) s G (OnSuccess post) := by
  rw [meets_bind, meets_ofExcept]
  cases x with
  | error e => simp
  | ok a => exact hf a rfl

/-- A first part that never fails. -/
theorem Meets.always {p : Proc apply ε α} {f : α → Proc apply ε β} {M : α → σ → Prop}
    {Q : Except ε β → σ → Prop} (hp : Meets p s G (OnSuccess M)) {a : α}
    (hok : (p s).result = .ok a) (hf : ∀ t, M a t → Meets (f a) t G Q) : Meets (p >>= f) s G Q := by
  rw [meets_bind]
  refine ⟨hp.1, ?_⟩
  rw [hok]
  exact hf _ (hp.2 a hok)

/-- A check that may fail first, with what holds then. -/
theorem Meets.decide {x : Except ε α} {f : α → Proc apply ε β} {Q : Except ε β → σ → Prop}
    (hf : ∀ a, x = .ok a → Meets (f a) s G Q) (herror : ∀ e, x = .error e → Q (.error e) s) :
    Meets (ofExcept x >>= f) s G Q := by
  rw [meets_bind, meets_ofExcept]
  cases x with
  | error e => exact herror e rfl
  | ok a => exact hf a rfl

/-- The result of a sequence whose first part succeeds. -/
theorem result_bind_ok {p : Proc apply ε α} {f : α → Proc apply ε β} {a : α}
    (hok : (p s).result = .ok a) : ((p >>= f) s).result = (f a (p.final s)).result := by
  simp only [final, bind, andThen, hok]

/-- The events of a sequence whose first part succeeds. -/
theorem events_bind_ok {p : Proc apply ε α} {f : α → Proc apply ε β} {a : α}
    (hok : (p s).result = .ok a) :
    ((p >>= f) s).events = (p s).events ++ (f a (p.final s)).events := by
  simp only [final, bind, andThen, hok]

/-- The events of a sequence whose first part fails. -/
theorem events_bind_error {p : Proc apply ε α} {f : α → Proc apply ε β} {e : ε}
    (herror : (p s).result = .error e) : ((p >>= f) s).events = (p s).events := by
  simp only [bind, andThen, herror]

/-- The result of a sequence whose first part fails. -/
theorem result_bind_error {p : Proc apply ε α} {f : α → Proc apply ε β} {e : ε}
    (herror : (p s).result = .error e) : ((p >>= f) s).result = .error e := by
  simp only [bind, andThen, herror]

/-- A run whose result is known: so is that of what follows its first part. -/
theorem Meets.known {p : Proc apply ε α} {f : α → Proc apply ε β} {r : Except ε β}
    {M : α → σ → Prop} (hr : ((p >>= f) s).result = r) (hp : Meets p s G (OnSuccess M))
    (hf : ∀ a t, M a t → (f a t).result = r → Meets (f a) t G fun _ _ => True) :
    Meets (p >>= f) s G fun _ _ => True := by
  rw [meets_bind]
  refine ⟨hp.1, ?_⟩
  cases hres : (p s).result with
  | error e => trivial
  | ok a => exact hf a _ (hp.2 a hres) ((result_bind_ok hres).symm.trans hr)

/-- A check at the beginning of such a run. -/
theorem Meets.knownCheck {x : Except ε α} {f : α → Proc apply ε β} {r : Except ε β}
    (hr : ((ofExcept x >>= f) s).result = r)
    (hf : ∀ a, x = .ok a → (f a s).result = r → Meets (f a) s G fun _ _ => True) :
    Meets (ofExcept x >>= f) s G fun _ _ => True := by
  rw [meets_bind, meets_ofExcept]
  cases x with
  | error e => trivial
  | ok a => exact hf a rfl ((result_bind_ok rfl).symm.trans hr)

/-- Reading the state first. -/
theorem Meets.read {f : σ → Proc apply ε β} {Q : Except ε β → σ → Prop} (hf : Meets (f s) s G Q) :
    Meets (get >>= f) s G Q := by
  rw [meets_bind, meets_get]
  exact hf

/-- One event first. -/
theorem Meets.step {e : ι} {f : Unit → Proc apply ε β} {Q : Except ε β → σ → Prop}
    (he : G s e) (hf : Meets (f ()) (apply s e) G Q) : Meets (emit e >>= f) s G Q := by
  rw [meets_bind, meets_emit]
  exact ⟨he, hf⟩

/-- A specification may be weakened on both sides. -/
theorem Meets.mono {p : Proc apply ε α} {G' : σ → ι → Prop} {Q Q' : Except ε α → σ → Prop}
    (h : Meets p s G Q) (hG : ∀ s e, G s e → G' s e) (hQ : ∀ r t, Q r t → Q' r t) :
    Meets p s G' Q' :=
  ⟨h.1.mono hG, hQ _ _ h.2⟩

/-- What is said of a success may be weakened. -/
theorem Meets.imp {p : Proc apply ε α} {post post' : α → σ → Prop}
    (h : Meets p s G (OnSuccess post)) (hpost : ∀ a t, post a t → post' a t) :
    Meets p s G (OnSuccess post') :=
  h.mono (fun _ _ hG => hG) fun _ t ht a ha => hpost a t (ht a ha)

/-- A specification of the result alone. -/
theorem Meets.forget {p : Proc apply ε α} {Q : Except ε α → σ → Prop} (h : Meets p s G Q) :
    Meets p s (fun _ _ => True) Q :=
  h.mono (fun _ _ _ => trivial) fun _ _ hQ => hQ

/-- What every event keeps holds besides. -/
theorem Meets.keep {p : Proc apply ε α} {post : α → σ → Prop} {I : σ → Prop}
    (h : Meets p s G (OnSuccess post)) (hs : I s) (hstep : ∀ s e, I s → G s e → I (apply s e)) :
    Meets p s G (OnSuccess fun a t => post a t ∧ I t) :=
  ⟨h.1, fun a ha => ⟨h.2 a ha, h.1.invariant hs hstep⟩⟩

/-- What every event keeps holds at the end besides. -/
theorem Meets.keeps {p : Proc apply ε α} {I : σ → Prop} {Q : Except ε α → σ → Prop}
    (h : Meets p s G Q) (hs : I s) (hstep : ∀ s e, I s → G s e → I (apply s e)) :
    Meets p s G fun r t => Q r t ∧ I t :=
  ⟨h.1, h.2, h.1.invariant hs hstep⟩

/-- What every event keeps holds before each of them besides. -/
theorem Meets.strengthen {p : Proc apply ε α} {I : σ → Prop} {Q : Except ε α → σ → Prop}
    (h : Meets p s G Q) (hs : I s) (hstep : ∀ s e, I s → G s e → I (apply s e)) :
    Meets p s (fun s e => G s e ∧ I s) fun r t => Q r t ∧ I t :=
  ⟨h.1.strengthen hs hstep, h.keeps hs hstep |>.2⟩

/-- Two specifications of one run hold together. -/
theorem Meets.and {p : Proc apply ε α} {G' : σ → ι → Prop} {Q Q' : Except ε α → σ → Prop}
    (h : Meets p s G Q) (h' : Meets p s G' Q') :
    Meets p s (fun s e => G s e ∧ G' s e) fun r t => Q r t ∧ Q' r t :=
  ⟨h.1.and h'.1, h.2, h'.2⟩

/-- A preorder that every event respects relates the start to the end. -/
theorem Meets.rel {p : Proc apply ε α} {R : σ → σ → Prop} {Q : Except ε α → σ → Prop}
    (h : Meets p s G Q) (hrefl : ∀ s, R s s) (htrans : ∀ s t u, R s t → R t u → R s u)
    (hstep : ∀ s e, G s e → R s (apply s e)) : Meets p s G fun r t => Q r t ∧ R s t :=
  ⟨h.1, h.2, h.1.rel hrefl htrans hstep⟩

/-- What every guarded event preserves holds wherever the run is cut off. -/
theorem Meets.cut {p : Proc apply ε α} {I : σ → Prop} {Q : Except ε α → σ → Prop}
    (h : Meets p s G Q) (hs : I s) (hstep : ∀ s e, I s → G s e → I (apply s e)) (k : Nat) :
    I (p.cut s k) :=
  (h.1.take k).invariant hs hstep

end Rules

/-- The run succeeds. -/
def Succeeds (p : Proc apply ε α) (s : σ) (post : α → σ → Prop) : Prop :=
  Meets p s (fun _ _ => True) fun r t => ∃ a, r = .ok a ∧ post a t

section Success

variable {s : σ} {G : σ → ι → Prop}

theorem succeeds_pure {a : α} :
    Succeeds (pure a : Proc apply ε α) s fun b t => b = a ∧ t = s :=
  meets_pure.mpr ⟨a, rfl, rfl, rfl⟩

theorem succeeds_ofExcept {x : Except ε α} {a : α} (h : x = .ok a) :
    Succeeds (ofExcept x : Proc apply ε α) s fun b t => b = a ∧ t = s := by
  rw [Succeeds, meets_ofExcept]
  exact ⟨a, h, rfl, rfl⟩

/-- A sequence of runs that succeed. -/
theorem Succeeds.bind {p : Proc apply ε α} {f : α → Proc apply ε β} {M : α → σ → Prop}
    {post : β → σ → Prop} (hp : Succeeds p s M) (hf : ∀ a t, M a t → Succeeds (f a) t post) :
    Succeeds (p >>= f) s post := by
  rw [Succeeds, meets_bind]
  refine ⟨hp.1, ?_⟩
  obtain ⟨a, ha, hM⟩ := hp.2
  rw [ha]
  exact hf a _ hM

theorem Succeeds.imp {p : Proc apply ε α} {post post' : α → σ → Prop} (h : Succeeds p s post)
    (hpost : ∀ a t, post a t → post' a t) : Succeeds p s post' :=
  Meets.mono h (fun _ _ h => h) fun _ t ⟨a, ha, ht⟩ => ⟨a, ha, hpost a t ht⟩

/-- What else is known of the run. -/
theorem Succeeds.and {p : Proc apply ε α} {post : α → σ → Prop} {Q : Except ε α → σ → Prop}
    (h : Succeeds p s post) (hp : Meets p s G Q) :
    Succeeds p s fun a t => post a t ∧ Q (.ok a) t := by
  obtain ⟨a, ha, hpost⟩ := h.2
  exact ⟨h.1, a, ha, hpost, ha ▸ hp.2⟩

/-- What every event keeps. -/
theorem Succeeds.keep {p : Proc apply ε α} {post : α → σ → Prop} {I : σ → Prop}
    (h : Succeeds p s post) (hs : I s) (hstep : ∀ s e, I s → I (apply s e)) :
    Succeeds p s fun a t => post a t ∧ I t :=
  (h.keeps hs fun s e hI _ => hstep s e hI).mono (fun _ _ h => h)
    fun _ _ ⟨⟨a, ha, hpost⟩, ht⟩ => ⟨a, ha, hpost, ht⟩

theorem Succeeds.read {f : σ → Proc apply ε β} {post : β → σ → Prop} (hf : Succeeds (f s) s post) :
    Succeeds (get >>= f) s post :=
  Meets.read hf

end Success

/-- Interrupted runs of a recovery procedure, each followed by `restart`, up to one that
returns successfully. -/
inductive Recovers (restart : σ → σ) (p : Proc apply ε α) : σ → α → σ → Prop
  | done {s : σ} {a : α} (h : (p s).result = .ok a) : Recovers restart p s a (p.final s)
  | again {s u : σ} {a : α} (k : Nat) (h : Recovers restart p (restart (p.cut s k)) a u) :
    Recovers restart p s a u

/-- What every event and a restart keep, and what a successful run establishes from there,
holds after any number of interrupted attempts. -/
theorem Recovers.spec {restart : σ → σ} {p : Proc apply ε α} {J : σ → Prop} {Q : α → σ → Prop}
    {G : σ → ι → Prop} (hp : ∀ s, J s → Meets p s G fun r t => ∀ a, r = .ok a → Q a t)
    (hstep : ∀ s e, J s → G s e → J (apply s e)) (hrestart : ∀ s, J s → J (restart s))
    {s u : σ} {a : α} (h : Recovers restart p s a u) (hs : J s) : Q a u := by
  induction h with
  | done hr => exact (hp _ hs).2 _ hr
  | again k _ ih => exact ih (hrestart _ ((hp _ hs).cut hs hstep k))

end Proc

end MiRelay

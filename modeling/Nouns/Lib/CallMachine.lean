import Mathlib.Logic.Relation

/-!
# Contracts that call out

A contract runs by itself until it calls into code nobody has modelled. That code
may do anything the contract's entry points allow, enter it again included, and
then returns or fails. A `Machine` is such a contract, or several sharing one
world, cut at its outgoing calls: `enter` runs an entry point up to the first of
them, `resume` runs on from one that came back.

Two semantics are given. `Runs` is the history that counts: a call that reverts
leaves nothing behind, so it is no step at all, and a callee that fails does so at
once. `Reachable` keeps the stack of pending calls with the worlds to restore and
lets any of them revert at any time. `Reachable.runs` says the second reaches
nothing the first does not, so an invariant is proved over `Runs` and holds in the
middle of transactions that are later undone as well.
-/

namespace CallMachine

variable {W C F T E : Type}

/--
How far code runs by itself: to its end, or to its next outgoing call. `sent` is
the world a failing callee leaves, `inside` the one the callee starts in.
-/
inductive Outcome (W F : Type) where
  | done (w : W)
  | call (sent inside : W) (f : F)

/-- An invariant `I` of configurations, and `J` of what a failing callee leaves, on an outcome. -/
def Outcome.Holds (I : W → List F → Prop) (J : W → F → List F → Prop) (fs : List F) :
    Outcome W F → Prop
  | .done w => I w fs
  | .call sent inside f => I inside (f :: fs) ∧ J sent f fs

/-- Contract code over a world `W`, with entry points `C` and pending calls `F`. -/
structure Machine (W C F T E : Type) where
  /-- Run an entry point. -/
  enter : C → W → Except E (Outcome W F)
  /-- Run on after a pending call: `true` if the callee succeeded. -/
  resume : F → Bool → W → Except E (Outcome W F)
  /-- Who may be calling what, given the calls already pending. -/
  allowed : C → W → List F → Prop
  /-- The passage of time between transactions. -/
  tick : T → W → Option W

/-- A world and the calls pending in it, innermost first. -/
structure Config (W F : Type) where
  world : W
  frames : List F

/-- What a step did. -/
inductive Label (C F T : Type) where
  | enter (c : C)
  | resume (f : F)
  | tick (t : T)

/-- The condition on steps that asks for nothing. -/
def Free : Config W F → Label C F T → Prop := fun _ _ => True

namespace Machine

variable (M : Machine W C F T E)

/-! ## The history that counts -/

/-- Where an outcome leads: the callee either starts running, or fails on the spot. -/
inductive Lands : Outcome W F → List F → Config W F → Prop where
  | done {w : W} {fs : List F} : Lands (.done w) fs ⟨w, fs⟩
  | call {sent inside : W} {f : F} {fs : List F} :
      Lands (.call sent inside f) fs ⟨inside, f :: fs⟩
  | failed {sent inside : W} {f : F} {fs : List F} {o : Outcome W F} {x : Config W F} :
      M.resume f false sent = .ok o → Lands o fs x → Lands (.call sent inside f) fs x

/-- One step. Time only passes between transactions. -/
inductive Step : Config W F → Label C F T → Config W F → Prop where
  | enter {c : C} {w : W} {fs : List F} {o : Outcome W F} {x : Config W F} :
      M.allowed c w fs → M.enter c w = .ok o → M.Lands o fs x → Step ⟨w, fs⟩ (.enter c) x
  | resume {f : F} {w : W} {fs : List F} {o : Outcome W F} {x : Config W F} :
      M.resume f true w = .ok o → M.Lands o fs x → Step ⟨w, f :: fs⟩ (.resume f) x
  | tick {t : T} {w w' : W} :
      M.tick t w = some w' → Step ⟨w, []⟩ (.tick t) ⟨w', []⟩

/-- The histories from `x` to `y` in which every step meets the condition `P`. -/
def Runs (P : Config W F → Label C F T → Prop) : Config W F → Config W F → Prop :=
  Relation.ReflTransGen (fun x y => ∃ l, P x l ∧ M.Step x l y)

variable {M} {P Q : Config W F → Label C F T → Prop}

theorem Runs.refl {x : Config W F} : M.Runs P x x := Relation.ReflTransGen.refl

theorem Runs.tail {x y z : Config W F} {l : Label C F T} (h : M.Runs P x y) (hp : P y l)
    (hs : M.Step y l z) : M.Runs P x z :=
  Relation.ReflTransGen.tail h ⟨l, hp, hs⟩

theorem Runs.trans {x y z : Config W F} (h : M.Runs P x y) (h' : M.Runs P y z) : M.Runs P x z :=
  Relation.ReflTransGen.trans h h'

theorem Runs.mono (hpq : ∀ x l, P x l → Q x l) {x y : Config W F} (h : M.Runs P x y) :
    M.Runs Q x y :=
  Relation.ReflTransGen.mono (fun _ _ ⟨l, hp, hs⟩ => ⟨l, hpq _ _ hp, hs⟩) _ _ h

theorem Step.allowed {x y : Config W F} {c : C} (h : M.Step x (.enter c) y) :
    M.allowed c x.world x.frames := by
  cases h with
  | enter ha => exact ha

/-- Who calls may call. -/
theorem Runs.permitted {x y : Config W F} (h : M.Runs P x y) :
    M.Runs (fun x l => P x l ∧ ∀ c, l = .enter c → M.allowed c x.world x.frames) x y := by
  induction h with
  | refl => exact .refl
  | tail _ hs ih =>
      obtain ⟨l, hp, hs⟩ := hs
      refine ih.tail ⟨hp, ?_⟩ hs
      intro c hl
      subst hl
      exact hs.allowed

/-! ## The invariant rule -/

variable (M P) in
/--
What it takes for `I` to hold along every history: entry points, returning calls
and the clock keep it. `J` is what is known of the world a failing callee leaves.
-/
structure Keeps (I : W → List F → Prop) (J : W → F → List F → Prop) : Prop where
  enter : ∀ {c w fs o}, I w fs → P ⟨w, fs⟩ (.enter c) → M.allowed c w fs →
    M.enter c w = .ok o → o.Holds I J fs
  resume : ∀ {f w fs o}, I w (f :: fs) → P ⟨w, f :: fs⟩ (.resume f) →
    M.resume f true w = .ok o → o.Holds I J fs
  failed : ∀ {f w fs o}, J w f fs → M.resume f false w = .ok o → o.Holds I J fs
  tick : ∀ {t w w'}, I w [] → P ⟨w, []⟩ (.tick t) → M.tick t w = some w' → I w' []

variable {I : W → List F → Prop} {J : W → F → List F → Prop}

theorem Keeps.lands (hk : M.Keeps P I J) {o : Outcome W F} {fs : List F} {x : Config W F}
    (hl : M.Lands o fs x) (ho : o.Holds I J fs) : I x.world x.frames := by
  induction hl with
  | done => exact ho
  | call => exact ho.1
  | failed hr _ ih => exact ih (hk.failed ho.2 hr)

theorem Keeps.step (hk : M.Keeps P I J) {x y : Config W F} {l : Label C F T}
    (hx : I x.world x.frames) (hp : P x l) (hs : M.Step x l y) : I y.world y.frames := by
  cases hs with
  | enter ha he hl => exact hk.lands hl (hk.enter hx hp ha he)
  | resume hr hl => exact hk.lands hl (hk.resume hx hp hr)
  | tick ht => exact hk.tick hx hp ht

/-- **The invariant rule.** What every step keeps, every history keeps. -/
theorem Keeps.runs (hk : M.Keeps P I J) {x y : Config W F} (hr : M.Runs P x y)
    (hx : I x.world x.frames) : I y.world y.frames := by
  induction hr with
  | refl => exact hx
  | tail _ hs ih =>
      obtain ⟨l, hp, hs⟩ := hs
      exact hk.step ih hp hs

/-- **The last moment.** What only the clock ends held last right before the clock ended it. -/
theorem Runs.last {p : W → Prop} (hclock : ∀ {x l y}, M.Step x l y → p x.world → ¬ p y.world →
    ∃ t, l = .tick t) {x z : Config W F} (h : M.Runs P x z) (hx : p x.world) (hz : ¬ p z.world) :
    ∃ y t y', M.Runs P x y ∧ p y.world ∧ M.Step y (.tick t) y' ∧ ¬ p y'.world ∧ M.Runs P y' z := by
  induction h with
  | refl => exact absurd hx hz
  | @tail y z hy hs ih =>
      obtain ⟨l, hl, hs⟩ := hs
      by_cases hp : p y.world
      · obtain ⟨t, rfl⟩ := hclock hs hp hz
        exact ⟨y, t, z, hy, hp, hs, hz, .refl⟩
      · obtain ⟨y₁, t, y₂, h1, h2, h3, h4, h5⟩ := ih hp
        exact ⟨y₁, t, y₂, h1, h2, h3, h4, h5.tail hl hs⟩

/-! ## Pending calls that may revert -/

/--
A pending call: the world its own frame restores if it reverts, the world it
leaves if the callee fails, and the code waiting for it. Code that is not
modelled waits as `none`.
-/
structure Frame (W F : Type) where
  saved : W
  sent : W
  code : Option F

/-- A world and the stack of pending calls, innermost first. -/
structure Nested (W F : Type) where
  world : W
  stack : List (Frame W F)

/-- The modelled calls of a stack. -/
def codes (stack : List (Frame W F)) : List F := stack.filterMap Frame.code

/-- A nested configuration without its restore points. -/
def Nested.flat (n : Nested W F) : Config W F := ⟨n.world, codes n.stack⟩

@[simp] theorem codes_nil : codes ([] : List (Frame W F)) = [] := rfl

@[simp] theorem codes_none {a b : W} {st : List (Frame W F)} :
    codes (⟨a, b, none⟩ :: st) = codes st := rfl

@[simp] theorem codes_some {a b : W} {f : F} {st : List (Frame W F)} :
    codes (⟨a, b, some f⟩ :: st) = f :: codes st := rfl

/-- Put an outcome of code entered in the world `saved` on the stack. -/
def Outcome.push (saved : W) (st : List (Frame W F)) : Outcome W F → Nested W F
  | .done w => ⟨w, st⟩
  | .call sent inside f => ⟨inside, ⟨saved, sent, some f⟩ :: st⟩

variable (M P) in
/--
One step of the full semantics. A frame of code that is not modelled opens and
closes freely; any frame may revert at any time, for want of gas if for no other
reason.
-/
inductive NestedStep : Nested W F → Nested W F → Prop where
  | enter {c : C} {w : W} {st : List (Frame W F)} {o : Outcome W F} :
      P ⟨w, codes st⟩ (.enter c) → M.allowed c w (codes st) → M.enter c w = .ok o →
      NestedStep ⟨w, st⟩ (Outcome.push w st o)
  | opens {w : W} {st : List (Frame W F)} : NestedStep ⟨w, st⟩ ⟨w, ⟨w, w, none⟩ :: st⟩
  | closes {w a b : W} {st : List (Frame W F)} : NestedStep ⟨w, ⟨a, b, none⟩ :: st⟩ ⟨w, st⟩
  | returned {w a b : W} {f : F} {st : List (Frame W F)} {o : Outcome W F} :
      P ⟨w, f :: codes st⟩ (.resume f) → M.resume f true w = .ok o →
      NestedStep ⟨w, ⟨a, b, some f⟩ :: st⟩ (Outcome.push a st o)
  | failed {w a b : W} {f : F} {st : List (Frame W F)} {o : Outcome W F} :
      M.resume f false b = .ok o →
      NestedStep ⟨w, ⟨a, b, some f⟩ :: st⟩ (Outcome.push a st o)
  | reverts {w a b : W} {f : Option F} {st : List (Frame W F)} :
      NestedStep ⟨w, ⟨a, b, f⟩ :: st⟩ ⟨a, st⟩
  | tick {t : T} {w w' : W} :
      P ⟨w, []⟩ (.tick t) → M.tick t w = some w' → NestedStep ⟨w, []⟩ ⟨w', []⟩

variable (M P) in
/-- What the full semantics reaches from the world `w`. -/
def Reachable (w : W) : Nested W F → Prop := Relation.ReflTransGen (M.NestedStep P) ⟨w, []⟩

/-- Every restore point of a stack is itself a configuration of the history that counts. -/
def Restorable (M : Machine W C F T E) (P : Config W F → Label C F T → Prop) (w₀ : W) :
    List (Frame W F) → Prop
  | [] => True
  | fr :: st => M.Runs P ⟨w₀, []⟩ ⟨fr.saved, codes st⟩ ∧
      (∀ f o x, fr.code = some f → M.resume f false fr.sent = .ok o → M.Lands o (codes st) x →
        M.Runs P ⟨w₀, []⟩ x) ∧ Restorable M P w₀ st

/-- Pushing an outcome whose landings are all reached keeps the stack restorable. -/
theorem Restorable.push {w₀ saved : W} {st : List (Frame W F)} {o : Outcome W F}
    (hsv : M.Runs P ⟨w₀, []⟩ ⟨saved, codes st⟩) (hst : Restorable M P w₀ st)
    (hl : ∀ x, M.Lands o (codes st) x → M.Runs P ⟨w₀, []⟩ x) :
    M.Runs P ⟨w₀, []⟩ (Outcome.push saved st o).flat
      ∧ Restorable M P w₀ (Outcome.push saved st o).stack := by
  cases o with
  | done w => exact ⟨hl _ Lands.done, hst⟩
  | call sent inside f =>
      refine ⟨hl _ Lands.call, hsv, ?_, hst⟩
      intro g o x hg hr hx
      obtain rfl : f = g := Option.some.inj hg
      exact hl x (Lands.failed hr hx)

theorem NestedStep.restorable {w₀ : W} {n n' : Nested W F} (hs : M.NestedStep P n n')
    (hn : M.Runs P ⟨w₀, []⟩ n.flat) (hr : Restorable M P w₀ n.stack) :
    M.Runs P ⟨w₀, []⟩ n'.flat ∧ Restorable M P w₀ n'.stack := by
  cases hs with
  | enter hp ha he =>
      exact Restorable.push hn hr (fun x hx => hn.tail hp (Step.enter ha he hx))
  | opens => exact ⟨hn, hn, fun f o x hf => by simp at hf, hr⟩
  | closes => exact ⟨hn, hr.2.2⟩
  | returned hp he =>
      exact Restorable.push hr.1 hr.2.2 (fun x hx => hn.tail hp (Step.resume he hx))
  | failed he => exact Restorable.push hr.1 hr.2.2 (fun x hx => hr.2.1 _ _ x rfl he hx)
  | reverts => exact ⟨hr.1, hr.2.2⟩
  | tick hp ht => exact ⟨hn.tail hp (Step.tick ht), trivial⟩

/--
**Reverting reaches nothing new.** Whatever the full semantics reaches, with
frames open and some of them about to revert, the history that counts reaches too.
-/
theorem Reachable.runs {w₀ : W} {n : Nested W F} (h : M.Reachable P w₀ n) :
    M.Runs P ⟨w₀, []⟩ n.flat := by
  suffices M.Runs P ⟨w₀, []⟩ n.flat ∧ Restorable M P w₀ n.stack from this.1
  induction h with
  | refl => exact ⟨Runs.refl, trivial⟩
  | tail _ hs ih => exact hs.restorable ih.1 ih.2

/-! ## Running a script -/

/--
What a script does next: enter, let the innermost pending call come back, or let time
pass. The next `fails` outgoing calls fail.
-/
inductive Move (C T : Type) where
  | enter (c : C) (fails : Nat := 0)
  | resume (fails : Nat := 0)
  | tick (t : T)

/-- Where an outcome leads if the next `fails` outgoing calls fail and the one after does not. -/
def landing (M : Machine W C F T E) : Nat → Outcome W F → List F → Option (Config W F)
  | 0, .done w, fs => some ⟨w, fs⟩
  | 0, .call _ inside f, fs => some ⟨inside, f :: fs⟩
  | _ + 1, .done _, _ => none
  | fails + 1, .call sent _ f, fs =>
      match M.resume f false sent with
      | .ok o => landing M fails o fs
      | .error _ => none

/-- Make a move; `none` if it is refused or does not pass the test `ok`. -/
def move (M : Machine W C F T E) [∀ c w fs, Decidable (M.allowed c w fs)]
    (ok : Config W F → Label C F T → Bool) : Config W F → Move C T → Option (Config W F)
  | ⟨w, fs⟩, .enter c fails =>
      if M.allowed c w fs ∧ ok ⟨w, fs⟩ (.enter c) then
        match M.enter c w with
        | .ok o => landing M fails o fs
        | .error _ => none
      else none
  | ⟨w, f :: fs⟩, .resume fails =>
      if ok ⟨w, f :: fs⟩ (.resume f) then
        match M.resume f true w with
        | .ok o => landing M fails o fs
        | .error _ => none
      else none
  | ⟨w, []⟩, .tick t =>
      if ok ⟨w, []⟩ (.tick t) then (M.tick t w).map (fun w' => ⟨w', []⟩) else none
  | _, _ => none

/-- A move makes a step of this kind. -/
def Move.Makes : Move C T → Label C F T → Prop
  | .enter c _, .enter c' => c = c'
  | .resume _, .resume _ => True
  | .tick t, .tick t' => t = t'
  | _, _ => False

/-- Make the moves of a list. -/
def script (M : Machine W C F T E) [∀ c w fs, Decidable (M.allowed c w fs)]
    (ok : Config W F → Label C F T → Bool) : Config W F → List (Move C T) → Option (Config W F)
  | x, [] => some x
  | x, m :: ms => (move M ok x m).bind (fun y => script M ok y ms)

/-- The test that everything passes. -/
def anything : Config W F → Label C F T → Bool := fun _ _ => true

theorem anything_free (x : Config W F) (l : Label C F T) (_ : anything x l = true) : Free x l :=
  trivial

theorem landing_lands : ∀ {fails : Nat} {o : Outcome W F} {fs : List F} {x : Config W F},
    landing M fails o fs = some x → M.Lands o fs x
  | 0, .done _, _, _, h => by cases h; exact .done
  | 0, .call _ _ _, _, _, h => by cases h; exact .call
  | _ + 1, .done _, _, _, h => by cases h
  | fails + 1, .call sent inside f, fs, x, h => by
      simp only [landing] at h
      split at h
      · rename_i o ho
        exact .failed ho (landing_lands h)
      · cases h

variable [∀ c w fs, Decidable (M.allowed c w fs)] {ok : Config W F → Label C F T → Bool}

theorem move_step {x y : Config W F} {m : Move C T} (h : move M ok x m = some y) :
    ∃ l, ok x l = true ∧ m.Makes l ∧ M.Step x l y := by
  unfold move at h
  split at h
  · split at h
    · rename_i ha
      split at h
      · rename_i ho
        exact ⟨_, ha.2, rfl, .enter ha.1 ho (landing_lands h)⟩
      · cases h
    · cases h
  · split at h
    · rename_i hok
      split at h
      · rename_i ho
        exact ⟨_, hok, trivial, .resume ho (landing_lands h)⟩
      · cases h
    · cases h
  · split at h
    · rename_i hok
      obtain ⟨w', hw, rfl⟩ := Option.map_eq_some_iff.mp h
      exact ⟨_, hok, rfl, .tick hw⟩
    · cases h
  · cases h

/-- A script that goes through is a history. -/
theorem script_runs (hP : ∀ x l, ok x l = true → P x l) :
    ∀ {ms : List (Move C T)} {x y : Config W F}, script M ok x ms = some y → M.Runs P x y
  | [], x, y, h => by
      obtain rfl : x = y := Option.some.inj h
      exact .refl
  | m :: ms, x, y, h => by
      obtain ⟨z, hz, hy⟩ := Option.bind_eq_some_iff.mp h
      obtain ⟨l, hl, -, hs⟩ := move_step hz
      exact (Runs.refl.tail (hP x l hl) hs).trans (script_runs hP hy)

/-- A script whose every move is fine gives a history that is. -/
theorem script_exists_moves {x : Config W F} {ms : List (Move C T)} {p : Config W F → Bool}
    (hP : ∀ m ∈ ms, ∀ (x : Config W F) (l : Label C F T), m.Makes l → P x l)
    (h : (script M anything x ms).any p = true) : ∃ y, M.Runs P x y ∧ p y = true := by
  obtain ⟨y, hy, hp⟩ := (Option.any_eq_true _ _).mp h
  refine ⟨y, ?_, hp⟩
  clear h hp
  induction ms generalizing x with
  | nil =>
      obtain rfl : x = y := Option.some.inj hy
      exact .refl
  | cons m ms ih =>
      obtain ⟨z, hz, hy⟩ := Option.bind_eq_some_iff.mp hy
      obtain ⟨l, -, hm, hs⟩ := move_step hz
      exact (Runs.refl.tail (hP m List.mem_cons_self x l hm) hs).trans
        (ih (fun m hm => hP m (List.mem_cons_of_mem _ hm)) hy)

/-- A script that ends where a test is passed gives a history that does. -/
theorem script_exists (hP : ∀ x l, ok x l = true → P x l) {x : Config W F} {m : List (Move C T)}
    {p : Config W F → Bool} (h : (script M ok x m).any p = true) :
    ∃ y, M.Runs P x y ∧ p y = true := by
  obtain ⟨y, hy, hp⟩ := (Option.any_eq_true _ _).mp h
  exact ⟨y, script_runs hP hy, hp⟩

end Machine

end CallMachine

import Mathlib.Data.List.Basic
import Mathlib.Logic.Relation

/-!
# Processes that take turns on a shared state

Any number of processes, started at any time, act one at a time on a state they share. `Proof` lists what has to be
shown for assertions about the shared state, each process and each pair of processes: what holds of a new process, what
the one that acts re-establishes, and what it does not disturb for the others.
-/

namespace Interleaving

/-- A shared state and the processes, in the order in which they were started. -/
structure Config (S P : Type) where
  shared : S
  procs : List P

variable {S P : Type}

/-- One turn: a process is started, or one of the processes takes a step. -/
inductive Turn (start : P → Prop) (step : S → P → S → P → Prop) (c : Config S P) :
    Config S P → Prop
  | spawn {p : P} (started : start p) : Turn start step c ⟨c.shared, c.procs ++ [p]⟩
  | act {i : Nat} {p p' : P} {s' : S} (proc : c.procs[i]? = some p)
      (stepped : step c.shared p s' p') : Turn start step c ⟨s', c.procs.set i p'⟩

/-- The configurations reached from `c`. -/
abbrev Reaches (start : P → Prop) (step : S → P → S → P → Prop) :
    Config S P → Config S P → Prop := Relation.ReflTransGen (Turn start step)

/-- A turn of a process that `ok` allows to act. -/
inductive GuardedTurn (start : P → Prop) (step : S → P → S → P → Prop) (ok : Config S P → P → Prop)
    (c : Config S P) : Config S P → Prop
  | spawn {p : P} (started : start p) : GuardedTurn start step ok c ⟨c.shared, c.procs ++ [p]⟩
  | act {i : Nat} {p p' : P} {s' : S} (proc : c.procs[i]? = some p) (allowed : ok c p)
      (stepped : step c.shared p s' p') : GuardedTurn start step ok c ⟨s', c.procs.set i p'⟩

/-- The configurations reached from `c` by such turns. -/
abbrev GuardedReaches (start : P → Prop) (step : S → P → S → P → Prop) (ok : Config S P → P → Prop) :
    Config S P → Config S P → Prop := Relation.ReflTransGen (GuardedTurn start step ok)

/-- The processes act in the order of a schedule, by the function `exec`. -/
def play (exec : S → P → Option (S × P)) : List Nat → Config S P → Option (Config S P)
  | [], c => some c
  | i :: rest, c =>
    match c.procs[i]? with
    | none => none
    | some p =>
      match exec c.shared p with
      | none => none
      | some (s', p') => play exec rest ⟨s', c.procs.set i p'⟩

/-- The same, where only processes act that `ok` allows to. -/
def playGuarded (ok : Config S P → P → Prop) [∀ c p, Decidable (ok c p)]
    (exec : S → P → Option (S × P)) : List Nat → Config S P → Option (Config S P)
  | [], c => some c
  | i :: rest, c =>
    match c.procs[i]? with
    | none => none
    | some p =>
      if ok c p then
        match exec c.shared p with
        | none => none
        | some (s', p') => playGuarded ok exec rest ⟨s', c.procs.set i p'⟩
      else none

/-- Assertions about the shared state, each process and each pair of processes. -/
structure Holds (J : S → Prop) (K : S → P → Prop) (R : S → P → P → Prop) (c : Config S P) :
    Prop where
  shared : J c.shared
  proc : ∀ {i : Nat} {p}, c.procs[i]? = some p → K c.shared p
  pair : ∀ {i j : Nat} {p q}, i ≠ j → c.procs[i]? = some p → c.procs[j]? = some q → R c.shared p q

/-- What has to be shown for the assertions to hold throughout. -/
structure Proof (start : P → Prop) (step : S → P → S → P → Prop) (J : S → Prop)
    (K : S → P → Prop) (R : S → P → P → Prop) : Prop where
  spawn : ∀ {s p}, J s → start p → K s p
  spawn_pair : ∀ {s p q}, J s → start p → K s q → R s p q ∧ R s q p
  shared : ∀ {s p s' p'}, J s → K s p → step s p s' p' → J s'
  act : ∀ {s p s' p'}, J s → K s p → step s p s' p' → K s' p'
  act_pair : ∀ {s p s' p' q}, J s → K s p → K s q → R s p q → R s q p → step s p s' p' →
    R s' p' q ∧ R s' q p'
  keep : ∀ {s p s' p' q}, J s → K s p → K s q → R s p q → R s q p → step s p s' p' → K s' q
  keep_pair : ∀ {s p s' p' q r}, J s → K s p → R s p q → R s p r → R s q r → step s p s' p' → R s' q r

/-- What has to be shown when a process acts only if `G` holds to each process. -/
structure GuardedProof (start : P → Prop) (step : S → P → S → P → Prop) (G : S → P → P → Prop)
    (J : S → Prop) (K : S → P → Prop) (R : S → P → P → Prop) : Prop where
  spawn : ∀ {s p}, J s → start p → K s p
  spawn_pair : ∀ {s p q}, J s → start p → K s q → R s p q ∧ R s q p
  shared : ∀ {s p s' p'}, J s → K s p → G s p p → step s p s' p' → J s'
  act : ∀ {s p s' p'}, J s → K s p → G s p p → step s p s' p' → K s' p'
  act_pair : ∀ {s p s' p' q}, J s → K s p → K s q → G s p q → R s p q → R s q p → step s p s' p' →
    R s' p' q ∧ R s' q p'
  keep : ∀ {s p s' p' q}, J s → K s p → K s q → G s p p → R s p q → R s q p → step s p s' p' → K s' q
  keep_pair : ∀ {s p s' p' q r}, J s → K s p → K s q → K s r → R s p q → R s p r → R s q r →
    step s p s' p' → R s' q r

variable {l : List P} {j : Nat} {q : P} {s : S}

theorem getElem?_set_cases {i : Nat} {p' : P}
    (h : (l.set i p')[j]? = some q) : (j = i ∧ q = p') ∨ (j ≠ i ∧ l[j]? = some q) := by
  by_cases hij : i = j
  · subst hij
    rw [List.getElem?_set_self'] at h
    obtain ⟨_, -, heq⟩ := Option.map_eq_some_iff.mp h
    exact .inl ⟨rfl, heq.symm⟩
  · rw [List.getElem?_set_ne hij] at h
    exact .inr ⟨fun h' => hij h'.symm, h⟩

theorem getElem?_concat_cases {p : P} (h : (l ++ [p])[j]? = some q) :
    (j = l.length ∧ q = p) ∨ (j < l.length ∧ l[j]? = some q) := by
  rcases Nat.lt_trichotomy j l.length with hlt | heq | hgt
  · rw [List.getElem?_append_left hlt] at h
    exact .inr ⟨hlt, h⟩
  · subst heq
    rw [List.getElem?_concat_length] at h
    exact .inl ⟨rfl, (Option.some.inj h).symm⟩
  · rw [List.getElem?_eq_none (by simp; omega)] at h
    cases h

variable {start : P → Prop} {step : S → P → S → P → Prop} {J : S → Prop} {K : S → P → Prop}
  {R : S → P → P → Prop} {c c' : Config S P}

variable {ok : Config S P → P → Prop}

section

variable {G : S → P → P → Prop} (h : GuardedProof start step G J K R)
  (hok : ∀ {c p q}, ok c p → q ∈ c.procs → G c.shared p q) (hc : Holds J K R c)
include h hok hc

theorem GuardedProof.turn (hturn : GuardedTurn start step ok c c') : Holds J K R c' := by
  cases hturn with
  | spawn started =>
    refine ⟨hc.shared, fun hp => ?_, fun hij hp hq => ?_⟩
    · rcases getElem?_concat_cases hp with ⟨-, rfl⟩ | ⟨-, hold⟩
      · exact h.spawn hc.shared started
      · exact hc.proc hold
    · rcases getElem?_concat_cases hp with ⟨hi, rfl⟩ | ⟨-, hold⟩
      · rcases getElem?_concat_cases hq with ⟨hj, -⟩ | ⟨-, hold'⟩
        · exact absurd (hi.trans hj.symm) hij
        · exact (h.spawn_pair hc.shared started (hc.proc hold')).1
      · rcases getElem?_concat_cases hq with ⟨-, rfl⟩ | ⟨-, hold'⟩
        · exact (h.spawn_pair hc.shared started (hc.proc hold)).2
        · exact hc.pair hij hold hold'
  | @act i p p' s' proc allowed stepped =>
    have hK := hc.proc proc
    have hG : ∀ {j q}, c.procs[j]? = some q → G c.shared p q :=
      fun hq => hok allowed (List.mem_of_getElem? hq)
    refine ⟨h.shared hc.shared hK (hG proc) stepped, fun {k q} hq => ?_, fun {k l q r} hkl hq hr => ?_⟩
    · rcases getElem?_set_cases hq with ⟨-, rfl⟩ | ⟨hne, hold⟩
      · exact h.act hc.shared hK (hG proc) stepped
      · exact h.keep hc.shared hK (hc.proc hold) (hG proc) (hc.pair hne.symm proc hold) (hc.pair hne hold proc) stepped
    · rcases getElem?_set_cases hq with ⟨hk, rfl⟩ | ⟨hk, hold⟩
      · rcases getElem?_set_cases hr with ⟨hl, -⟩ | ⟨hl, hold'⟩
        · exact absurd (hk.trans hl.symm) hkl
        · exact (h.act_pair hc.shared hK (hc.proc hold') (hG hold') (hc.pair hl.symm proc hold')
            (hc.pair hl hold' proc) stepped).1
      · rcases getElem?_set_cases hr with ⟨-, rfl⟩ | ⟨hl, hold'⟩
        · exact (h.act_pair hc.shared hK (hc.proc hold) (hG hold) (hc.pair hk.symm proc hold)
            (hc.pair hk hold proc) stepped).2
        · exact h.keep_pair hc.shared hK (hc.proc hold) (hc.proc hold') (hc.pair hk.symm proc hold)
            (hc.pair hl.symm proc hold') (hc.pair hkl hold hold') stepped

/-- What holds at the start holds in every configuration that is reached by guarded turns. -/
theorem GuardedProof.reaches (hreach : GuardedReaches start step ok c c') : Holds J K R c' := by
  induction hreach with
  | refl => exact hc
  | tail _ hturn ih => exact h.turn hok ih hturn

end

theorem Turn.guarded (h : Turn start step c c') : GuardedTurn start step (fun _ _ => True) c c' := by
  cases h with
  | spawn started => exact .spawn started
  | act proc stepped => exact .act proc trivial stepped

theorem Proof.guarded (h : Proof start step J K R) : GuardedProof start step (fun _ _ _ => True) J K R where
  spawn := h.spawn
  spawn_pair := h.spawn_pair
  shared hJ hK _ := h.shared hJ hK
  act hJ hK _ := h.act hJ hK
  act_pair hJ hK hK' _ := h.act_pair hJ hK hK'
  keep hJ hK hK' _ := h.keep hJ hK hK'
  keep_pair hJ hK _ _ := h.keep_pair hJ hK

theorem Proof.turn (h : Proof start step J K R) (hc : Holds J K R c) (hturn : Turn start step c c') :
    Holds J K R c' :=
  h.guarded.turn (fun _ _ => trivial) hc hturn.guarded

theorem Proof.reaches (h : Proof start step J K R) (hc : Holds J K R c)
    (hreach : Reaches start step c c') : Holds J K R c' := by
  induction hreach with
  | refl => exact hc
  | tail _ hturn ih => exact h.turn ih hturn

theorem holds_idle (hs : J s) : Holds J K R ⟨s, []⟩ where
  shared := hs
  proc h := by cases h
  pair _ h := by cases h

theorem reaches_of_play {exec : S → P → Option (S × P)}
    (hexec : ∀ {s p s' p'}, exec s p = some (s', p') → step s p s' p') (schedule : List Nat)
    (h : play exec schedule c = some c') : Reaches start step c c' := by
  induction schedule generalizing c with
  | nil =>
    cases h
    exact .refl
  | cons i rest ih =>
    rw [play] at h
    split at h
    · cases h
    · rename_i p hp
      split at h
      · cases h
      · rename_i s' p' hstep
        exact .head (.act hp (hexec hstep)) (ih h)

theorem guardedReaches_of_playGuarded [∀ c p, Decidable (ok c p)] {exec : S → P → Option (S × P)}
    (hexec : ∀ {s p s' p'}, exec s p = some (s', p') → step s p s' p') (schedule : List Nat)
    (h : playGuarded ok exec schedule c = some c') : GuardedReaches start step ok c c' := by
  induction schedule generalizing c with
  | nil =>
    cases h
    exact .refl
  | cons i rest ih =>
    rw [playGuarded] at h
    split at h
    · cases h
    · rename_i p hp
      split_ifs at h with hok
      split at h
      · cases h
      · rename_i s' p' hstep
        exact .head (.act hp hok (hexec hstep)) (ih h)

theorem guardedReaches_spawn (before ps : List P)
    (h : ∀ p ∈ ps, start p) : GuardedReaches start step ok ⟨s, before⟩ ⟨s, before ++ ps⟩ := by
  induction ps generalizing before with
  | nil => rw [List.append_nil]
  | cons p rest ih =>
    rw [List.forall_mem_cons] at h
    have hrest := ih (before ++ [p]) h.2
    rw [List.append_assoc, List.singleton_append] at hrest
    exact .head (.spawn h.1) hrest

theorem GuardedTurn.turn (h : GuardedTurn start step ok c c') : Turn start step c c' := by
  cases h with
  | spawn started => exact .spawn started
  | act proc allowed stepped => exact .act proc stepped

/-- A weaker guard allows the same turns. -/
theorem GuardedReaches.mono {ok' : Config S P → P → Prop} (hok : ∀ c p, ok c p → ok' c p)
    (h : GuardedReaches start step ok c c') : GuardedReaches start step ok' c c' := by
  refine Relation.ReflTransGen.mono (fun c c' hturn => ?_) _ _ h
  cases hturn with
  | spawn started => exact .spawn started
  | act proc allowed stepped => exact .act proc (hok _ _ allowed) stepped

theorem reaches_of_guarded (h : GuardedReaches start step ok c c') : Reaches start step c c' :=
  Relation.ReflTransGen.mono (fun _ _ => GuardedTurn.turn) _ _ h

theorem reaches_spawn (ps : List P) (h : ∀ p ∈ ps, start p) : Reaches start step ⟨s, []⟩ ⟨s, ps⟩ := by
  have hspawn : GuardedReaches start step (fun _ _ => True) ⟨s, []⟩ ⟨s, ps⟩ := guardedReaches_spawn [] ps h
  exact reaches_of_guarded hspawn

/-- A process with a property is still there, if the one that acts keeps it. -/
theorem exists_mem_set {i : Nat} {p p' : P} {Q : P → Prop} (hp : l[i]? = some p)
    (h : ∃ q ∈ l, Q q) (hkeep : Q p → Q p') : ∃ q ∈ l.set i p', Q q := by
  obtain ⟨q, hq, hQ⟩ := h
  obtain ⟨j, hj⟩ := List.mem_iff_getElem?.mp hq
  obtain ⟨hlt, -⟩ := List.getElem?_eq_some_iff.mp hp
  by_cases hij : i = j
  · subst hij
    obtain rfl := Option.mem_unique hp hj
    exact ⟨p', List.mem_set hlt p', hkeep hQ⟩
  · refine ⟨q, List.mem_iff_getElem?.mpr ⟨j, ?_⟩, hQ⟩
    rw [List.getElem?_set_ne hij]
    exact hj

theorem Turn.kept (hturn : Turn start step c c') (hq : c.procs[j]? = some q)
    (hidle : ∀ s p', ¬step c.shared q s p') : c'.procs[j]? = some q := by
  cases hturn with
  | spawn started =>
    obtain ⟨hlt, -⟩ := List.getElem?_eq_some_iff.mp hq
    rw [List.getElem?_append_left hlt]
    exact hq
  | @act i p p' s' proc stepped =>
    rw [List.getElem?_set_ne]
    · exact hq
    · rintro rfl
      obtain rfl := Option.mem_unique proc hq
      exact hidle _ _ stepped

/-- A process that is started and left alone takes its steps on the shared state. -/
theorem reaches_alone {p : P} {y : S × P} (started : start p)
    (h : Relation.ReflTransGen (fun x y => step x.1 x.2 y.1 y.2) (c.shared, p) y) :
    Reaches start step c ⟨y.1, c.procs ++ [y.2]⟩ := by
  refine .head (.spawn started) ?_
  induction h with
  | refl => exact .refl
  | @tail y z _ hstep ih =>
    have hturn : Turn start step ⟨y.1, c.procs ++ [y.2]⟩ _ := .act List.getElem?_concat_length hstep
    rw [List.set_append_right _ _ (Nat.le_refl _), Nat.sub_self] at hturn
    exact ih.tail hturn

end Interleaving

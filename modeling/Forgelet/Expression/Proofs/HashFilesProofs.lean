import Mathlib.Data.List.Infix
import Forgelet.Expression.HashFiles

/-!
# Proofs: hashing files

What a pattern matches, and what a hash tells about the files: they are written one after the other without their
lengths.
-/

namespace Forgelet.Expression

open Bytes (ofString byte)

variable {pathMatch : Bytes → Bytes → Except Bytes Bool}

/-- Segments are matched one by one, and `**` absorbs any number of them. -/
inductive Spans (pathMatch : Bytes → Bytes → Except Bytes Bool) : List Bytes → List Bytes → Prop
  | nil : Spans pathMatch [] []
  | one {p s pat seg} (plain : p ≠ ofString "**") (matched : pathMatch p s = .ok true)
      (rest : Spans pathMatch pat seg) : Spans pathMatch (p :: pat) (s :: seg)
  | any {pat seg} (absorbed : List Bytes) (rest : Spans pathMatch pat seg) :
      Spans pathMatch (ofString "**" :: pat) (absorbed ++ seg)

theorem matchSegments_iff (pat seg : List Bytes) :
    matchSegments pathMatch pat seg = .ok true ↔ Spans pathMatch pat seg := by
  induction pat generalizing seg with
  | nil =>
    cases seg with
    | nil => exact ⟨fun _ => .nil, fun _ => rfl⟩
    | cons s seg => exact ⟨nofun, nofun⟩
  | cons p pat ih =>
    unfold matchSegments
    split_ifs with hp
    · subst hp
      have hany : (seg.tails.any fun rest => (matchSegments pathMatch pat rest).toOption == some true) = true ↔
          ∃ rest, rest <:+ seg ∧ Spans pathMatch pat rest := by
        rw [List.any_eq_true]
        refine exists_congr fun rest => and_congr (List.mem_tails ..) ?_
        rw [← ih]
        cases matchSegments pathMatch pat rest <;> simp [Except.toOption]
      rw [Except.ok.injEq, hany]
      constructor
      · rintro ⟨rest, ⟨absorbed, rfl⟩, hrest⟩
        exact .any absorbed hrest
      · rintro (_ | ⟨hplain, -, -⟩ | ⟨absorbed, hrest⟩)
        · exact absurd rfl hplain
        · exact ⟨_, List.suffix_append absorbed _, hrest⟩
    · constructor
      · intro h
        cases seg with
        | nil => cases h
        | cons s seg =>
          dsimp only at h
          cases hm : pathMatch p s with
          | error err => rw [hm] at h; cases h
          | ok matched =>
            rw [hm] at h
            cases matched with
            | false => cases h
            | true => exact .one hp hm ((ih seg).mp h)
      · rintro (_ | ⟨-, hm, hrest⟩ | -)
        · dsimp only
          rw [hm]
          exact (ih _).mpr hrest
        · exact absurd rfl hp

/-- A path matches a pattern if its segments do. -/
theorem matchGlob_iff_spans (pathMatch : Bytes → Bytes → Except Bytes Bool) :
    (∀ pat seg, matchSegments pathMatch pat seg = .ok true ↔ Spans pathMatch pat seg) ∧
      ∀ pattern name, matchGlob pathMatch pattern name = .ok true ↔
        Spans pathMatch (segments pattern) (segments name) :=
  ⟨matchSegments_iff, fun _ _ => matchSegments_iff _ _⟩

/-- The contents of the matched files in sorted order. -/
def Matched (pathMatch : Bytes → Bytes → Except Bytes Bool) (patterns : List Bytes) (ws : Workspace)
    (contents : List Bytes) : Prop :=
  ∃ found, walkMatches pathMatch patterns ∅ ws.walk = .ok found ∧
    (Bytes.sort found.keys).map ws.read = contents.map .ok

theorem copyFiles_ok {ws written stream files} (h : copyFiles ws written files = .ok stream) :
    ∃ contents : List Bytes, files.map ws.read = contents.map .ok ∧ stream = written ++ contents.flatten := by
  induction files generalizing written with
  | nil =>
    cases h
    exact ⟨[], rfl, (List.append_nil _).symm⟩
  | cons f rest ih =>
    rw [copyFiles] at h
    cases hf : ws.read f with
    | error err => rw [hf] at h; cases h
    | ok data =>
      rw [hf] at h
      obtain ⟨contents, hrest, hstream⟩ := ih h
      refine ⟨data :: contents, ?_, ?_⟩
      · rw [List.map_cons, hf, hrest, List.map_cons]
      · rw [hstream, List.flatten_cons, List.append_assoc]

/-- A hash that is not empty is one of the contents one after the other. -/
theorem hashFiles_ok {patterns} {sum : Bytes → Bytes} {ws digest} (h : hashFiles pathMatch patterns sum ws = .ok digest)
    (hne : digest ≠ []) : ∃ contents, Matched pathMatch patterns ws contents ∧ digest = sum contents.flatten := by
  unfold hashFiles at h
  cases hwalk : walkMatches pathMatch patterns ∅ ws.walk with
  | error err =>
    rw [hwalk] at h
    dsimp only at h
    split_ifs at h
    cases h
    exact absurd rfl hne
  | ok found =>
    rw [hwalk] at h
    dsimp only at h
    split_ifs at h
    · cases h
      exact absurd rfl hne
    · cases hcopy : copyFiles ws [] (Bytes.sort found.keys) with
      | error err => rw [hcopy] at h; cases h
      | ok stream =>
        rw [hcopy] at h
        cases h
        obtain ⟨contents, hread, hstream⟩ := copyFiles_ok hcopy
        exact ⟨contents, ⟨found, hwalk, hread⟩, congrArg sum hstream⟩

/-- A workspace of the files `a` and `b`. -/
def twoFiles (a b : String) : Workspace where
  walk := [.ok (ofString ".", false), .ok (ofString "a", true), .ok (ofString "b", true)]
  read f := if f = ofString "a" then .ok (ofString a) else .ok (ofString b)

end Forgelet.Expression

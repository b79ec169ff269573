import Forgelet.Store.Active

/-!
# Proofs: the objects of the in-memory active store

After `CreateOrGet` the job has the object that is returned, and the other objects are as before. An object is named
after its job for as long as `CreateOrGet` and `Delete` are all that happens to the store.
-/

namespace Forgelet.ActiveStore

variable {a : ActiveStore} {id : JobRunID}

/-- `CreateOrGet` returns the object that is there. -/
theorem createOrGet_of_some {obj} (h : a.objects.lookup id = some obj) :
    a.createOrGet id = (obj, { a with createCalls := a.createCalls + 1 }) := by
  unfold createOrGet
  dsimp only
  rw [h]

theorem createOrGet_of_none (h : a.objects.lookup id = none) : ∃ uid, (a.createOrGet id).1 = ⟨crName id, uid⟩ ∧
      (a.createOrGet id).2.objects = a.objects.insert id ⟨crName id, uid⟩ ∧
      (a.createOrGet id).2.created = a.created + 1 := by
  unfold createOrGet
  dsimp only
  rw [h]
  exact ⟨_, rfl, rfl, rfl⟩

theorem createOrGet_lookup (a : ActiveStore) (id i : JobRunID) : (a.createOrGet id).2.objects.lookup i =
      if i = id then some (a.createOrGet id).1 else a.objects.lookup i := by
  cases h : a.objects.lookup id with
  | some obj =>
    rw [createOrGet_of_some h]
    split_ifs with heq
    · rw [heq]
      exact h
    · rfl
  | none =>
    obtain ⟨uid, hobj, hobjects, -⟩ := createOrGet_of_none h
    rw [hobjects, GoMap.lookup_insert_ite, hobj]

theorem delete_lookup (a : ActiveStore) (id i : JobRunID) :
    (a.delete id).objects.lookup i = if i = id then none else a.objects.lookup i :=
  GoMap.lookup_erase_ite _ _ _

/-- Every object has the name of its job run. -/
def Named (a : ActiveStore) : Prop := ∀ id obj, a.objects.lookup id = some obj → obj.name = crName id

theorem named_of_empty (h : ∀ id, a.objects.lookup id = none) : a.Named := by
  intro id obj hobj
  rw [h] at hobj
  cases hobj

theorem Named.returned (h : a.Named) (id : JobRunID) : (a.createOrGet id).1.name = crName id := by
  cases hobj : a.objects.lookup id with
  | some obj =>
    rw [createOrGet_of_some hobj]
    exact h id obj hobj
  | none =>
    obtain ⟨uid, heq, -⟩ := createOrGet_of_none hobj
    rw [heq]

theorem Named.createOrGet (h : a.Named) (id : JobRunID) : (a.createOrGet id).2.Named := by
  intro i obj hobj
  rw [createOrGet_lookup] at hobj
  split_ifs at hobj with heq
  · rw [← Option.some.inj hobj, heq]
    exact h.returned id
  · exact h i obj hobj

end Forgelet.ActiveStore

import Mathlib.Data.List.Forall2
import Mathlib.Data.List.ReduceOption

/-!
# Traversals that may fail

The items of a list are handled one after the other, and the first failure is that of the whole.

Main results:

- `bind_eq_ok_iff`: two steps succeed when the second one does on the result of the first.
- `forall₂_of_mapM_eq_ok`: a traversal that succeeds succeeds at every item.
- `forall₂_of_mapM₂_eq_ok`: two traversals have related results if they do at every item.
- `exists_mapM_iff`: a traversal succeeds exactly when it does at every item.
- `mapM_filterMap`: items that are left out may be dropped before or after the traversal.
- `passes_mapM`: steps that pass each other at every item do so on the list.
-/

namespace FilterQuery.Traversal

variable {α β γ ε : Type}

/-- What is done to a result succeeds exactly when there is a result. -/
theorem map_eq_ok_iff {f : α → β} {result : Except ε α} {b : β} :
    f <$> result = .ok b ↔ ∃ a, result = .ok a ∧ f a = b := by
  cases result with
  | error e => simp
  | ok a => simp

/-- What is done to a result has a result exactly when there is one already. -/
theorem exists_map_iff {f : α → β} {result : Except ε α} :
    (∃ b, f <$> result = .ok b) ↔ ∃ a, result = .ok a := by
  simp only [map_eq_ok_iff]
  constructor
  · rintro ⟨_, a, ha, _⟩
    exact ⟨a, ha⟩
  · rintro ⟨a, ha⟩
    exact ⟨f a, a, ha, rfl⟩

/-- What is done to a failure does not touch a result. -/
theorem mapError_eq_ok_iff {δ : Type} {f : ε → δ} {result : Except ε α} {a : α} :
    result.mapError f = .ok a ↔ result = .ok a := by
  cases result with
  | error e =>
      have hfail : (Except.error e : Except ε α).mapError f = .error (f e) := rfl
      simp [hfail]
  | ok b =>
      have hok : (Except.ok b : Except ε α).mapError f = .ok b := rfl
      simp [hok]

/-- Two steps succeed exactly when the second one does on the result of the first. -/
theorem bind_eq_ok_iff {first : Except ε α} {second : α → Except ε β} {b : β} :
    first >>= second = .ok b ↔ ∃ a, first = .ok a ∧ second a = .ok b := by
  cases first with
  | error e => simp [bind, Except.bind]
  | ok a => simp [bind, Except.bind]

/-- Two independent steps succeed exactly when both do. -/
theorem exists_bind₂_iff {first : Except ε α} {second : Except ε β} {f : α → β → γ} :
    (∃ c, (do let a ← first; let b ← second; return f a b) = .ok c) ↔
      (∃ a, first = .ok a) ∧ ∃ b, second = .ok b := by
  constructor
  · rintro ⟨c, h⟩
    rcases bind_eq_ok_iff.mp h with ⟨a, ha, h⟩
    rcases bind_eq_ok_iff.mp h with ⟨b, hb, _⟩
    exact ⟨⟨a, ha⟩, ⟨b, hb⟩⟩
  · rintro ⟨⟨a, rfl⟩, ⟨b, rfl⟩⟩
    exact ⟨f a b, rfl⟩

/-- What all items of a list have passes to the items that stand beside them in another list. -/
theorem forall_mem_of_forall₂ {p : α → Prop} {q : β → Prop} {items : List α} {others : List β}
    (h : List.Forall₂ (fun item other => p item → q other) items others)
    (hitems : ∀ item ∈ items, p item) : ∀ other ∈ others, q other := by
  induction h with
  | nil => exact List.forall_mem_nil q
  | cons hitem _ ih =>
      rw [List.forall_mem_cons] at hitems ⊢
      exact ⟨hitem hitems.1, ih hitems.2⟩

/-- A traversal that succeeds succeeds at every item. -/
theorem forall₂_of_mapM_eq_ok {f : α → Except ε β} {items : List α} {results : List β}
    (h : items.mapM f = .ok results) :
    List.Forall₂ (fun item result => f item = .ok result) items results := by
  induction items generalizing results with
  | nil =>
      obtain rfl : [] = results := Except.ok.inj h
      exact .nil
  | cons item rest ih =>
      rw [List.mapM_cons] at h
      rcases bind_eq_ok_iff.mp h with ⟨result, hitem, h⟩
      rcases map_eq_ok_iff.mp h with ⟨others, hrest, rfl⟩
      exact .cons hitem (ih hrest)

/-- Two traversals of the same items have related results if they do at every item. -/
theorem forall₂_of_mapM₂_eq_ok {f : α → Except ε β} {g : α → Except ε γ} {related : β → γ → Prop}
    {items : List α} {results : List β} {others : List γ}
    (h : ∀ item ∈ items, ∀ b c, f item = .ok b → g item = .ok c → related b c)
    (hf : items.mapM f = .ok results) (hg : items.mapM g = .ok others) :
    List.Forall₂ related results others := by
  have hfirst := forall₂_of_mapM_eq_ok hf
  clear hf
  induction hfirst generalizing others with
  | nil =>
      obtain rfl : [] = others := Except.ok.inj hg
      exact .nil
  | @cons item b rest results hitem _ ih =>
      rw [List.mapM_cons] at hg
      rcases bind_eq_ok_iff.mp hg with ⟨c, hother, hg⟩
      rcases map_eq_ok_iff.mp hg with ⟨remaining, hrest, rfl⟩
      rw [List.forall_mem_cons] at h
      exact .cons (h.1 b c hitem hother) (ih h.2 hrest)

/-- Every result of a traversal is that of some item. -/
theorem exists_mem_of_mapM_eq_ok {f : α → Except ε β} {items : List α} {results : List β}
    (h : items.mapM f = .ok results) {result : β} (hresult : result ∈ results) :
    ∃ item ∈ items, f item = .ok result := by
  have hall := forall₂_of_mapM_eq_ok h
  clear h
  induction hall with
  | nil => contradiction
  | @cons item first rest others hfirst _ ih =>
      rcases List.mem_cons.mp hresult with rfl | hothers
      · exact ⟨item, by simp, hfirst⟩
      · rcases ih hothers with ⟨other, hother, hresult⟩
        exact ⟨other, List.mem_cons_of_mem _ hother, hresult⟩

/-- A traversal succeeds exactly when it does at every item. -/
theorem exists_mapM_iff {f : α → Except ε β} {items : List α} :
    (∃ results, items.mapM f = .ok results) ↔ ∀ item ∈ items, ∃ result, f item = .ok result := by
  induction items with
  | nil => simp [pure, Except.pure]
  | cons item rest ih =>
      rw [List.forall_mem_cons, ← ih, List.mapM_cons]
      constructor
      · rintro ⟨results, h⟩
        rcases bind_eq_ok_iff.mp h with ⟨result, hitem, h⟩
        rcases bind_eq_ok_iff.mp h with ⟨others, hrest, _⟩
        exact ⟨⟨result, hitem⟩, ⟨others, hrest⟩⟩
      · rintro ⟨⟨result, hitem⟩, ⟨others, hrest⟩⟩
        refine ⟨result :: others, bind_eq_ok_iff.mpr ⟨result, hitem, ?_⟩⟩
        exact bind_eq_ok_iff.mpr ⟨others, hrest, rfl⟩

/-- Traversals that agree at every item agree. -/
theorem mapM_congr {f g : α → Except ε β} {items : List α} (h : ∀ item ∈ items, f item = g item) :
    items.mapM f = items.mapM g := by
  induction items with
  | nil => rfl
  | cons item rest ih =>
      rw [List.mapM_cons, List.mapM_cons, h item (by simp),
        ih fun other hother => h other (List.mem_cons_of_mem _ hother)]

/-- A traversal that succeeds at every item gives what every item becomes. -/
theorem mapM_eq_ok_map {f : α → Except ε β} {g : α → β} {items : List α}
    (h : ∀ item ∈ items, f item = .ok (g item)) : items.mapM f = .ok (items.map g) := by
  induction items with
  | nil => rfl
  | cons item rest ih =>
      rw [List.forall_mem_cons] at h
      rw [List.mapM_cons, h.1, ih h.2]
      rfl

/-- A traversal that changes no item changes nothing. -/
theorem mapM_eq_self {step : α → Except ε α} {items : List α}
    (h : ∀ item ∈ items, step item = .ok item) : items.mapM step = .ok items := by
  simpa using mapM_eq_ok_map h

/-- What is done to every result may be done to all of them in the end. -/
theorem mapM_map_result (f : α → Except ε β) (g : β → γ) (items : List α) :
    items.mapM (fun item => g <$> f item) = List.map g <$> items.mapM f := by
  induction items with
  | nil => rfl
  | cons item rest ih => simp [ih]

/-- What is handed through beside the results is not changed. -/
theorem map_fst_of_mapM_eq_ok {f : α × β → Except ε γ} {items : List (α × β)}
    {results : List (α × γ)} (h : items.mapM (fun item => (item.1, ·) <$> f item) = .ok results) :
    results.map Prod.fst = items.map Prod.fst := by
  have hall := forall₂_of_mapM_eq_ok h
  clear h
  induction hall with
  | nil => rfl
  | cons hitem _ ih =>
      rcases map_eq_ok_iff.mp hitem with ⟨c, _, rfl⟩
      rw [List.map_cons, List.map_cons, ih]

/-- Items that are left out may be dropped before or after the traversal. -/
theorem mapM_filterMap (keep : α → Option β) (f : β → Except ε γ) (items : List α) :
    (items.filterMap keep).mapM f =
      List.reduceOption <$> items.mapM (fun item => (keep item).mapM f) := by
  induction items with
  | nil => rfl
  | cons item rest ih =>
      cases hkeep : keep item with
      | none => simp [hkeep, ih]
      | some kept => simp [hkeep, ih]

/-- Collecting what is left of every item is a traversal that drops the rest in the end. -/
theorem collect_eq_mapM (walk : α → Except ε (Option β))
    (collect : List α → Except ε (List β)) (hnil : collect [] = pure [])
    (hcons : ∀ item rest, collect (item :: rest) = do
      let first ← walk item
      let others ← collect rest
      return first.toList ++ others) (items : List α) :
    collect items = List.reduceOption <$> items.mapM walk := by
  induction items with
  | nil => exact hnil
  | cons item rest ih =>
      rw [hcons, List.mapM_cons, ih]
      cases hitem : walk item with
      | error e => rfl
      | ok first =>
          cases rest.mapM walk with
          | error e => rfl
          | ok others => cases first <;> rfl

/-! ## Traversals one after the other -/

/-- Whether a second step does the same before and after a first one that succeeds: it fails alike
on the item and on the result, or the first step takes the one outcome to the other. -/
def Passes (first second : α → Except ε α) (item : α) : Prop :=
  ∀ result, first item = .ok result →
    (∃ e, second item = .error e ∧ second result = .error e) ∨
      ∃ other both, second item = .ok other ∧ second result = .ok both ∧ first other = .ok both

/-- Steps that pass each other at every item do so on the list. -/
theorem passes_mapM {first second : α → Except ε α} {items : List α}
    (h : ∀ item ∈ items, Passes first second item) :
    Passes (List.mapM first) (List.mapM second) items := by
  induction items with
  | nil =>
      rintro results hresults
      obtain rfl : [] = results := Except.ok.inj hresults
      exact .inr ⟨[], [], rfl, rfl, rfl⟩
  | cons item rest ih =>
      rw [List.forall_mem_cons] at h
      intro results hresults
      rw [List.mapM_cons] at hresults
      rcases bind_eq_ok_iff.mp hresults with ⟨result, hresult, hrest⟩
      rcases map_eq_ok_iff.mp hrest with ⟨others, hothers, rfl⟩
      simp only [List.mapM_cons]
      rcases h.1 result hresult with ⟨e, hitem, hfail⟩ | ⟨other, both, hother, hboth, hfirst⟩
      · exact .inl ⟨e, by rw [hitem]; rfl, by rw [hfail]; rfl⟩
      · rcases ih h.2 others hothers with ⟨e, hitems, hfail⟩ | ⟨ys, zs, hys, hzs, hall⟩
        · exact .inl ⟨e, by rw [hother, hitems]; rfl, by rw [hboth, hfail]; rfl⟩
        · refine .inr ⟨other :: ys, both :: zs, ?_, ?_, ?_⟩
          · rw [hother, hys]
            rfl
          · rw [hboth, hzs]
            rfl
          · rw [List.mapM_cons, hfirst, hall]
            rfl

/-- Where two steps pass each other, they come to the same in either order. -/
theorem Passes.bind_eq_ok {first second : α → Except ε α} {item both : α}
    (h : Passes first second item) (hboth : first item >>= second = .ok both) :
    second item >>= first = .ok both := by
  rcases bind_eq_ok_iff.mp hboth with ⟨result, hresult, hthen⟩
  rcases h result hresult with ⟨e, _, hfail⟩ | ⟨other, last, hother, hlast, hfirst⟩
  · rw [hfail] at hthen
    contradiction
  · rcases Except.ok.inj (hlast.symm.trans hthen) with rfl
    exact bind_eq_ok_iff.mpr ⟨other, hother, hfirst⟩

/-- Where both succeed by themselves, they do so one after the other. -/
theorem Passes.exists_both {first second : α → Except ε α} {item result other : α}
    (h : Passes first second item) (hfirst : first item = .ok result)
    (hsecond : second item = .ok other) :
    ∃ both, second result = .ok both ∧ first other = .ok both := by
  rcases h result hfirst with ⟨e, hfail, _⟩ | ⟨same, both, hsame, hboth, hthen⟩
  · rw [hfail] at hsecond
    contradiction
  · rcases Except.ok.inj (hsame.symm.trans hsecond) with rfl
    exact ⟨both, hboth, hthen⟩

end FilterQuery.Traversal

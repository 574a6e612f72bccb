import EventSphere.Api.Session

/-!
# The orders table and its keys

What the primary key and the partial unique index on the idempotency keys of a user
(`order.py:26`) are good for: no two orders of a table clash (`Indexed`), an accepted insert keeps
it so, and a lookup of a key finds at most one order.
-/

namespace EventSphere.Api

/-- Clashing is symmetric. -/
theorem Order.Clashes.symm {o o' : Order} (h : o.Clashes o') : o'.Clashes o := by
  rcases h with h | ⟨h1, h2, h3⟩
  · exact .inl h.symm
  · exact .inr ⟨h1.symm, h2.symm, h2 ▸ h3⟩

/-- What clashes does not depend on the status. -/
theorem Order.clashes_status {o o' : Order} {st : OrderStatus} :
    o.Clashes { o' with status := st } ↔ o.Clashes o' := Iff.rfl

/-- A new order is new beside an order it does not clash with. -/
theorem Order.IsNew.set {o o' : Order} {orders : Table Order} (h : o.IsNew orders)
    (hc : ¬ o.Clashes o') : o.IsNew (orders.set o') := by
  intro i _ o'' ho''
  rw [Option.mem_def, Table.get_set] at ho''
  split at ho''
  · cases ho''; exact hc
  · exact h i (Table.mem_of_get ho'') o'' ho''

/-- A new order does not clash with a stored one. -/
theorem Order.IsNew.not_clashes {o o' : Order} {orders : Table Order} {i : UUID}
    (h : o.IsNew orders) (ho' : orders.get i = some o') : ¬ o.Clashes o' :=
  h i (Table.mem_of_get ho') o' ho'

/-- No two orders of the table clash. -/
def Indexed (orders : Table Order) : Prop :=
  ∀ ⦃i i' o o'⦄, orders.get i = some o → orders.get i' = some o' → i ≠ i' → ¬ o.Clashes o'

/-- An accepted insert keeps the keys unique. -/
theorem Indexed.set {orders : Table Order} (h : Indexed orders) {o : Order} (ho : o.IsNew orders) :
    Indexed (orders.set o) := by
  intro i i' o₁ o₂ h₁ h₂ hne
  rw [Table.get_set] at h₁ h₂
  split at h₁
  · next hi =>
    cases h₁
    rw [if_neg fun hi' => hne (hi.trans hi'.symm)] at h₂
    exact ho.not_clashes h₂
  · split at h₂
    · cases h₂
      exact fun hc => ho.not_clashes h₁ hc.symm
    · exact h h₁ h₂ hne

/-! ## Lookups of a key -/

theorem scalarOneOrNone_eq_none {l : List Order} : scalarOneOrNone l = .ok none ↔ l = [] := by
  match l with
  | [] => exact ⟨fun _ => rfl, fun _ => rfl⟩
  | [o] => exact ⟨by rintro ⟨⟩, by rintro ⟨⟩⟩
  | o :: o' :: l => exact ⟨by rintro ⟨⟩, by rintro ⟨⟩⟩

theorem scalarOneOrNone_eq_some {l : List Order} {o : Order} :
    scalarOneOrNone l = .ok (some o) ↔ l = [o] := by
  match l with
  | [] => exact ⟨by rintro ⟨⟩, by rintro ⟨⟩⟩
  | [o'] => simp [scalarOneOrNone]
  | o' :: o'' :: l => exact ⟨by rintro ⟨⟩, by rintro ⟨⟩⟩

/-- The orders a lookup of a key returns. -/
theorem mem_ordersWithKey {orders : Table Order} {scan : ScanOrder UUID} {user : UUID}
    {key : String} {o : Order} :
    o ∈ ordersWithKey orders scan user key ↔ orders.get o.id = some o ∧ o.HasKey user key := by
  simp only [ordersWithKey, List.mem_filterMap, scan.mem_order, Finset.mem_filter,
    Option.any_eq_true, decide_eq_true_eq]
  constructor
  · rintro ⟨i, ⟨-, o', ho', hk⟩, ho⟩
    cases ho'.symm.trans ho
    obtain rfl : o.id = i := orders.pk_of_get ho
    exact ⟨ho, hk⟩
  · rintro ⟨ho, hk⟩
    exact ⟨o.id, ⟨Table.mem_of_get ho, o, ho, hk⟩, ho⟩

section
variable {orders : Table Order} {scan : ScanOrder UUID} {user : UUID} {key : String}

variable (orders scan user key) in
/-- The orders with a key are distinct. -/
theorem ordersWithKey_nodup : (ordersWithKey orders scan user key).Nodup := by
  refine List.Nodup.filterMap (fun i i' o ho ho' => ?_) (scan.nodup _)
  exact (orders.pk_of_get ho).symm.trans (orders.pk_of_get ho')

/-- **A key belongs to one order**: its lookup finds no other. -/
theorem Indexed.ordersWithKey_eq (h : Indexed orders) {o : Order} (ho : orders.get o.id = some o)
    (hk : o.HasKey user key) : ordersWithKey orders scan user key = [o] := by
  have honly : ∀ o' ∈ ordersWithKey orders scan user key, o' = o := by
    intro o' hmem
    obtain ⟨ho', hk'⟩ := mem_ordersWithKey.1 hmem
    by_contra hne
    refine h ho' ho (fun hid => hne ?_) (.inr ⟨hk'.1.trans hk.1.symm, hk'.2.trans hk.2.symm,
      by rw [hk'.2]; exact Option.some_ne_none _⟩)
    rw [hid, ho] at ho'
    exact (Option.some.inj ho').symm
  have hmem : o ∈ ordersWithKey orders scan user key := mem_ordersWithKey.2 ⟨ho, hk⟩
  cases hl : ordersWithKey orders scan user key with
  | nil => rw [hl] at hmem; cases hmem
  | cons o₁ l =>
    have hnd := ordersWithKey_nodup orders scan user key
    rw [hl] at honly hnd
    obtain rfl := honly o₁ (.head _)
    cases l with
    | nil => rfl
    | cons o₂ l =>
      obtain rfl := honly o₂ (.tail _ (.head _))
      exact absurd (.head _) (List.nodup_cons.1 hnd).1

/-- A lookup of a key does not find more orders than one. -/
theorem Indexed.scalarOneOrNone_ne_error (h : Indexed orders) {e : ApiError} :
    scalarOneOrNone (ordersWithKey orders scan user key) ≠ .error e := by
  intro he
  cases hl : ordersWithKey orders scan user key with
  | nil => rw [hl] at he; cases he
  | cons o l =>
    obtain ⟨ho, hk⟩ := mem_ordersWithKey.1 (hl ▸ List.mem_cons_self .. : o ∈ ordersWithKey ..)
    rw [h.ordersWithKey_eq ho hk] at he
    cases he

end

end EventSphere.Api

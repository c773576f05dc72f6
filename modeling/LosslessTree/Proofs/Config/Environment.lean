import LosslessTree.Config.Load
import LosslessTree.Proofs.Config.Key
import Mathlib.Data.List.Nodup

/-! What the environment sets. Every variable has a key of its own, so the order in which the variables
are visited makes no difference. -/
namespace LosslessTree

namespace Setting

/-- Where no key is set twice, what counts is what is there. -/
lemma last?_eq_some_iff {settings : List Setting} (hnodup : (settings.map key).Nodup) {k : Config.Key}
    {s : Setting} : last? settings k = some s ↔ s ∈ settings ∧ s.key = k := by
  refine ⟨mem_of_last?, fun ⟨hs, hk⟩ => ?_⟩
  cases hlast : last? settings k with
  | none =>
    have hnone := List.find?_eq_none.mp hlast s (List.mem_reverse.mpr hs)
    exact absurd (decide_eq_true hk) hnone
  | some s' =>
    obtain ⟨hs', hk'⟩ := mem_of_last? hlast
    rw [List.inj_on_of_nodup_map hnodup hs' hs (hk'.trans hk.symm)]

end Setting

/-- Settings of different keys can be made in any order. -/
theorem Config.apply_perm {a b : List Setting} (hnodup : (a.map Setting.key).Nodup) (h : a.Perm b) (c : Config) :
    c.apply a = c.apply b := by
  refine ext_get fun k => ?_
  have hlast : Setting.last? a k = Setting.last? b k := by
    refine Option.ext fun s => ?_
    rw [Setting.last?_eq_some_iff hnodup, Setting.last?_eq_some_iff ((h.map _).nodup_iff.mp hnodup), h.mem_iff]
  rw [get_apply, get_apply, hlast]

namespace Environment

/-- The key that a reading sets. -/
def Reading.key : Reading → Config.Key
  | .text make | .list make => (make []).key
  | .bool make => (make true).key
  | .int make => (make 0).key

/-- The same key is set whatever is read. -/
def Reading.Sets : Reading → Config.Key → Prop
  | .text make, k | .list make, k => ∀ value, (make value).key = k
  | .bool make, k => ∀ b, (make b).key = k
  | .int make, k => ∀ n, (make n).key = k

variable {env : Environment} {v : Variable} {order : List Variable} {settings : List Setting} {s : Setting}

/-- What a variable sets, if it is set itself and its value is valid. -/
def given? (env : Environment) (v : Variable) : Option Setting :=
  (env.value? v.name).bind fun value => (v.setting value).toOption

/-- Among these variables those that are set have valid values. -/
def Accepts (env : Environment) (order : List Variable) : Prop :=
  ∀ v ∈ order, ∀ value, env.value? v.name = some value → ∃ s, v.setting value = .ok s

lemma sets_of_mem_known (hv : v ∈ known) : v.reading.Sets v.reading.key := by
  simp only [known, List.mem_cons, List.not_mem_nil, or_false] at hv
  rcases hv with rfl | rfl | rfl | rfl | rfl | rfl | rfl | rfl | rfl | rfl | rfl | rfl <;>
    exact fun _ => rfl

/-- No two variables set the same key. -/
lemma nodup_keys_known : (known.map fun v => v.reading.key).Nodup := by decide

lemma key_of_given? (hv : v ∈ known) (h : env.given? v = some s) : s.key = v.reading.key := by
  have hsets := sets_of_mem_known hv
  obtain ⟨value, -, hs⟩ := Option.bind_eq_some_iff.mp h
  unfold Variable.setting at hs
  cases hreading : v.reading with
  | text make | list make =>
    rw [hreading] at hs hsets
    obtain rfl := Option.some.inj hs
    exact hsets _
  | bool make =>
    rw [hreading] at hs hsets
    cases hvalue : Text.bool? value with
    | none => simp [hvalue, Except.toOption] at hs
    | some b =>
      simp only [hvalue, Except.toOption, Option.some.injEq] at hs
      exact hs ▸ hsets b
  | int make =>
    rw [hreading] at hs hsets
    cases hvalue : Text.integer? value with
    | none => simp [hvalue, Except.toOption] at hs
    | some n =>
      simp only [hvalue, Except.toOption, Option.some.injEq] at hs
      exact hs ▸ hsets n

/-- The environment sets no key twice. -/
lemma nodup_keys_given (env : Environment) : ((known.filterMap env.given?).map Setting.key).Nodup := by
  rw [List.Nodup, List.pairwise_map, List.pairwise_filterMap]
  have hknown := nodup_keys_known
  rw [List.Nodup, List.pairwise_map] at hknown
  refine hknown.imp_of_mem fun hv hw hne s hs t ht => ?_
  rw [key_of_given? hv hs, key_of_given? hw ht]
  exact hne

/-- Reading the variables goes well just when all of them are valid. -/
lemma settingsOf_eq_iff : env.settingsOf order = (settings, none) ↔
    Accepts env order ∧ settings = order.filterMap env.given? := by
  induction order generalizing settings with
  | nil => simp [settingsOf, Accepts, eq_comm]
  | cons v rest ih =>
    have haccepts : Accepts env (v :: rest) ↔
        (∀ value, env.value? v.name = some value → ∃ s, v.setting value = .ok s) ∧ Accepts env rest :=
      List.forall_mem_cons
    rw [haccepts, settingsOf]
    cases hvalue : env.value? v.name with
    | none =>
      have hgiven : env.given? v = none := by rw [given?, hvalue, Option.bind_none]
      simp only [List.filterMap_cons_none hgiven, ih]
      simp
    | some value =>
      cases hsetting : v.setting value with
      | error message => simp [hsetting]
      | ok s =>
        have hgiven : env.given? v = some s := by
          rw [given?, hvalue, Option.bind_some, hsetting, Except.toOption]
        simp only [List.filterMap_cons_some hgiven]
        rcases hfound : env.settingsOf rest with ⟨found, error⟩
        simp only [hsetting, Prod.mk.injEq]
        constructor
        · rintro ⟨rfl, rfl⟩
          obtain ⟨hrest, rfl⟩ := ih.mp hfound
          exact ⟨⟨fun _ h => ⟨s, Option.some.inj h ▸ hsetting⟩, hrest⟩, rfl⟩
        · rintro ⟨⟨-, hrest⟩, rfl⟩
          obtain ⟨rfl, rfl⟩ := Prod.mk.inj (hfound.symm.trans (ih.mpr ⟨hrest, rfl⟩))
          exact ⟨rfl, rfl⟩

end Environment

namespace Config

variable {order : List Environment.Variable} {env : Environment} {c c' : Config}

lemma overlayEnvironment_eq_ok_iff : overlayEnvironment order env c = .ok c' ↔
    env.Accepts order ∧ c' = c.apply (order.filterMap env.given?) := by
  unfold overlayEnvironment
  rcases hread : env.settingsOf order with ⟨settings, _ | message⟩
  · obtain ⟨haccepts, rfl⟩ := Environment.settingsOf_eq_iff.mp hread
    simp [haccepts, eq_comm]
  · have hnot : ¬ env.Accepts order := fun h => by
      have hok := Environment.settingsOf_eq_iff.mpr ⟨h, rfl⟩
      simp [hread] at hok
    simp [hnot]

/-- In whatever order the variables are visited, they are all valid or none counts, and they give the same. -/
theorem overlayEnvironment_perm (h : order.Perm Environment.known) (env : Environment) (c : Config) :
    (overlayEnvironment order env c).toOption = (overlayEnvironment Environment.known env c).toOption := by
  refine Option.ext fun c' => ?_
  have hiff (order : List Environment.Variable) :
      (overlayEnvironment order env c).toOption = some c' ↔ overlayEnvironment order env c = .ok c' := by
    cases overlayEnvironment order env c <;> simp [Except.toOption]
  have hgiven := h.filterMap env.given?
  have hsame := apply_perm (((hgiven.map _).nodup_iff).mpr (Environment.nodup_keys_given env)) hgiven c
  have haccepts : env.Accepts order ↔ env.Accepts Environment.known :=
    forall_congr' fun v => imp_congr_left h.mem_iff
  rw [hiff, hiff, overlayEnvironment_eq_ok_iff, overlayEnvironment_eq_ok_iff, haccepts, hsame]

end Config
end LosslessTree

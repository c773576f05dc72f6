import LosslessTree.Proofs.Cursor.Place

/-! Paths of child indices. A path leads to a subtree and to the offset at which the subtree starts.
Putting another subtree there leaves everything off the path as it was; what comes after it moves by
the difference of the lengths. -/
namespace LosslessTree.Tree

/-- The subtree at the end of a path. -/
def at? (t : Tree) : List Nat → Option Tree
  | [] => some t
  | i :: path => t.children[i]?.bind (at? · path)

/-- Where the subtree at the end of a path starts. -/
def offsetAt (t : Tree) : List Nat → Nat
  | [] => 0
  | i :: path => lengthAll (t.children.take i) + t.children[i]?.elim 0 (offsetAt · path)

/-- A tree with `u` at the end of a path. -/
def putAt (u t : Tree) : List Nat → Tree
  | [] => u
  | i :: path =>
    match t.children[i]? with
    | none => t
    | some c => .node t.kind (t.children.set i (putAt u c path))

/-- Where two paths first part, the second goes on further to the right. -/
inductive Before : List Nat → List Nat → Prop
  | parts {i j : Nat} {p q : List Nat} (less : i < j) : Before (i :: p) (j :: q)
  | shares {i : Nat} {p q : List Nat} (rest : Before p q) : Before (i :: p) (i :: q)

section
variable {t c u old : Tree} {i : Nat} {p q : List Nat}

/-- Paths that part do not go on from each other. -/
lemma Before.not_prefix (h : Before p q) : ¬ p <+: q ∧ ¬ q <+: p := by
  induction h with
  | parts less =>
    rw [List.cons_prefix_cons, List.cons_prefix_cons]
    omega
  | shares rest ih =>
    rw [List.cons_prefix_cons, List.cons_prefix_cons]
    exact ⟨fun h => ih.1 h.2, fun h => ih.2 h.2⟩

lemma at?_cons_eq_some (h : t.at? (i :: p) = some old) :
    ∃ c, t.children[i]? = some c ∧ c.at? p = some old :=
  Option.bind_eq_some_iff.mp h

lemma at?_append (t : Tree) (p q : List Nat) : t.at? (p ++ q) = (t.at? p).bind (at? · q) := by
  induction p generalizing t with
  | nil => rfl
  | cons i p ih =>
    rw [List.cons_append, at?, at?]
    cases t.children[i]? with
    | none => rfl
    | some c => exact ih c

lemma offsetAt_cons (hc : t.children[i]? = some c) (p : List Nat) :
    t.offsetAt (i :: p) = lengthAll (t.children.take i) + c.offsetAt p := by
  rw [offsetAt, hc]
  rfl

lemma offsetAt_append (h : t.at? p = some u) (q : List Nat) :
    t.offsetAt (p ++ q) = t.offsetAt p + u.offsetAt q := by
  induction p generalizing t with
  | nil =>
    cases h
    exact (Nat.zero_add _).symm
  | cons i p ih =>
    obtain ⟨c, hc, hp⟩ := at?_cons_eq_some h
    rw [List.cons_append, offsetAt_cons hc, offsetAt_cons hc, ih hp, Nat.add_assoc]

lemma putAt_cons (hc : t.children[i]? = some c) (u : Tree) (p : List Nat) :
    putAt u t (i :: p) = .node t.kind (t.children.set i (putAt u c p)) := by
  rw [putAt, hc]

/-- Putting something at a child of the subtree is changing that child alone. -/
lemma putAt_append_singleton (h : t.at? p = some old) (hc : old.children[i]? = some c) (u : Tree) :
    putAt u t (p ++ [i]) = putAt (.node old.kind (old.children.set i u)) t p := by
  induction p generalizing t with
  | nil =>
    cases h
    exact putAt_cons hc u []
  | cons j p ih =>
    obtain ⟨d, hd, hp⟩ := at?_cons_eq_some h
    rw [List.cons_append, putAt_cons hd, putAt_cons hd, ih hp]

/-- What was put at a path is found there. -/
theorem at?_putAt (h : t.at? p = some old) (u : Tree) : (putAt u t p).at? p = some u := by
  induction p generalizing t with
  | nil => rfl
  | cons i p ih =>
    obtain ⟨c, hc, hp⟩ := at?_cons_eq_some h
    obtain ⟨hi, -⟩ := List.getElem?_eq_some_iff.mp hc
    rw [putAt_cons hc, at?, children, List.getElem?_set_self hi]
    exact ih hp

/-- Paths that part from the one put at lead where they led. -/
theorem at?_putAt_of_apart (hpq : ¬ p <+: q) (hqp : ¬ q <+: p) (u t : Tree) :
    (putAt u t p).at? q = t.at? q := by
  induction p generalizing t q with
  | nil => exact absurd List.nil_prefix hpq
  | cons i p ih =>
    cases q with
    | nil => exact absurd List.nil_prefix hqp
    | cons j q =>
      cases hc : t.children[i]? with
      | none => rw [putAt, hc]
      | some c =>
        rw [putAt_cons hc, at?, at?, children]
        by_cases hij : i = j
        · obtain ⟨hi, -⟩ := List.getElem?_eq_some_iff.mp hc
          subst hij
          rw [List.cons_prefix_cons, not_and] at hpq hqp
          rw [List.getElem?_set_self hi, hc]
          exact ih (hpq rfl) (hqp rfl) c
        · rw [List.getElem?_set_ne hij]

/-- The nodes on the way to the path keep their kind and the number of their children. -/
theorem at?_putAt_of_above (h : t.at? p = some old) (hqp : q <+: p) (hne : q ≠ p) (u : Tree) :
    ∃ v w, t.at? q = some v ∧ (putAt u t p).at? q = some w ∧ v.isNode = true ∧ w.isNode = true ∧
      w.kind = v.kind ∧ w.children.length = v.children.length := by
  induction p generalizing t q with
  | nil => exact absurd (List.prefix_nil.mp hqp) hne
  | cons i p ih =>
    obtain ⟨c, hc, hp⟩ := at?_cons_eq_some h
    rw [putAt_cons hc]
    cases q with
    | nil =>
      refine ⟨t, _, rfl, rfl, ?_, rfl, rfl, List.length_set⟩
      cases t with
      | token k s => cases hc
      | node k cs => rfl
    | cons j q =>
      obtain ⟨rfl, hprefix⟩ := List.cons_prefix_cons.mp hqp
      obtain ⟨hi, -⟩ := List.getElem?_eq_some_iff.mp hc
      rw [at?, at?, children, List.getElem?_set_self hi, hc]
      exact ih hp hprefix (fun heq => hne (congrArg _ heq))

end

section Offsets
variable {t c u old : Tree} {cs : List Tree} {i j : Nat} {p q : List Nat}

/-- Changing one child changes the length of all of them by the difference. -/
lemma lengthAll_set (hc : cs[i]? = some c) (u : Tree) :
    lengthAll (cs.set i u) + c.length = lengthAll cs + u.length := by
  obtain ⟨hi, rfl⟩ := List.getElem?_eq_some_iff.mp hc
  have hold : lengthAll cs = lengthAll (cs.take i) + (cs[i].length + lengthAll (cs.drop (i + 1))) := by
    conv_lhs => rw [← List.take_append_drop i cs, List.drop_eq_getElem_cons hi, lengthAll_append, lengthAll]
  rw [List.set_eq_take_append_cons_drop, if_pos hi, lengthAll_append, lengthAll, hold]
  omega

lemma lengthAll_take_set_of_lt (hc : cs[i]? = some c) (hij : i < j) (u : Tree) :
    lengthAll ((cs.set i u).take j) + c.length = lengthAll (cs.take j) + u.length := by
  rw [List.take_set]
  exact lengthAll_set (by rw [List.getElem?_take_of_lt hij, hc]) u

lemma lengthAll_take_set_of_le (hji : j ≤ i) (u : Tree) :
    lengthAll ((cs.set i u).take j) = lengthAll (cs.take j) := by
  rw [List.take_set_of_le hji]

lemma length_of_child (hc : t.children[i]? = some c) : t.length = lengthAll t.children := by
  cases t with
  | token k s => cases hc
  | node k cs => rfl

lemma length_putAt (hp : t.at? p = some old) (u : Tree) :
    (putAt u t p).length + old.length = t.length + u.length := by
  induction p generalizing t with
  | nil =>
    cases hp
    exact Nat.add_comm _ _
  | cons i p ih =>
    obtain ⟨c, hc, hp⟩ := at?_cons_eq_some hp
    have hset := lengthAll_set hc (putAt u c p)
    have hchild := ih hp
    rw [putAt_cons hc, length, length_of_child hc]
    omega

/-- What comes after the path moves by the difference of the lengths. -/
theorem offsetAt_putAt_of_before (h : Before p q) (hp : t.at? p = some old) (u : Tree) :
    (putAt u t p).offsetAt q + old.length = t.offsetAt q + u.length := by
  induction h generalizing t with
  | @parts i j p q less =>
    obtain ⟨c, hc, hp⟩ := at?_cons_eq_some hp
    have htake := lengthAll_take_set_of_lt hc less (putAt u c p)
    have hchild := length_putAt hp u
    rw [putAt_cons hc, offsetAt, offsetAt, children, List.getElem?_set_ne (Nat.ne_of_lt less)]
    omega
  | @shares i p q rest ih =>
    obtain ⟨c, hc, hp⟩ := at?_cons_eq_some hp
    obtain ⟨hi, -⟩ := List.getElem?_eq_some_iff.mp hc
    have hchild := ih hp
    rw [putAt_cons hc, offsetAt_cons (List.getElem?_set_self hi), offsetAt_cons hc, children,
      lengthAll_take_set_of_le (Nat.le_refl i)]
    omega

/-- What comes before the path stays where it is. -/
theorem offsetAt_putAt_of_after (h : Before q p) (u t : Tree) : (putAt u t p).offsetAt q = t.offsetAt q := by
  induction h generalizing t with
  | @parts j i q p less =>
    cases hc : t.children[i]? with
    | none => rw [putAt, hc]
    | some c =>
      rw [putAt_cons hc, offsetAt, offsetAt, children, List.getElem?_set_ne (Nat.ne_of_gt less),
        lengthAll_take_set_of_le (Nat.le_of_lt less)]
  | @shares i q p rest ih =>
    cases hc : t.children[i]? with
    | none => rw [putAt, hc]
    | some c =>
      obtain ⟨hi, -⟩ := List.getElem?_eq_some_iff.mp hc
      rw [putAt_cons hc, offsetAt_cons (List.getElem?_set_self hi), offsetAt_cons hc, children,
        lengthAll_take_set_of_le (Nat.le_refl i), ih c]

end Offsets

end LosslessTree.Tree

import LosslessTree.Proofs.Tree.Path

/-! Nodes that begin and end with something other than a token of certain kinds. -/
namespace LosslessTree.Tree

/-- A token of one of these kinds. -/
def IsTokenIn (kinds : List Kind) (t : Tree) : Prop := t.isToken = true ∧ t.kind ∈ kinds

/-- No token of trivia is the first or the last child of the node. If the node is solid, there is none in it
at all. -/
structure Trimmed (trivia solid : List Kind) (n : Tree) : Prop where
  first : ∀ c ∈ n.children.head?, ¬ c.IsTokenIn trivia
  last : ∀ c ∈ n.children.getLast?, ¬ c.IsTokenIn trivia
  free : n.kind ∈ solid → ∀ l ∈ n.leaves, l.kind ∉ trivia

/-- All nodes below the root of the tree are trimmed. -/
def TrimmedBelow (trivia solid : List Kind) (t : Tree) : Prop :=
  ∀ path n, path ≠ [] → t.at? path = some n → n.isNode = true → n.Trimmed trivia solid

/-- All nodes of the tree are trimmed. -/
inductive Neat (trivia solid : List Kind) : Tree → Prop
  | token (k : Kind) (text : Bytes) : Neat trivia solid (.token k text)
  | node {k : Kind} {cs : List Tree} (trimmed : Trimmed trivia solid (.node k cs))
      (below : ∀ c ∈ cs, Neat trivia solid c) : Neat trivia solid (.node k cs)

/-- The last of these trees is no token of trivia. -/
def Closed (trivia : List Kind) (ts : List Tree) : Prop := ∃ us t, ts = us ++ [t] ∧ ¬ t.IsTokenIn trivia

section
variable {trivia solid : List Kind} {t n c : Tree} {k : Kind} {text : Bytes} {ts us cs : List Tree}
  {path : List Nat}

lemma not_isTokenIn_node (kinds : List Kind) (k : Kind) (cs : List Tree) : ¬ (node k cs).IsTokenIn kinds :=
  fun h => absurd h.1 Bool.false_ne_true

lemma not_isTokenIn_token (h : k ∉ trivia) : ¬ (token k text).IsTokenIn trivia := fun htrivia => h htrivia.2

lemma Closed.append (h : Closed trivia ts) (us : List Tree) : Closed trivia (us ++ ts) := by
  obtain ⟨before, t, rfl, ht⟩ := h
  exact ⟨us ++ before, t, (List.append_assoc ..).symm, ht⟩

lemma closed_singleton : Closed trivia [t] ↔ ¬ t.IsTokenIn trivia := by
  constructor
  · rintro ⟨us, u, heq, hu⟩
    have hlast : some t = some u := (congrArg List.getLast? heq).trans List.getLast?_concat
    exact Option.some.inj hlast ▸ hu
  · exact fun h => ⟨[], t, rfl, h⟩

lemma neat_of_isToken (h : t.isToken = true) : t.Neat trivia solid := by
  cases t with
  | token k text => exact .token k text
  | node k cs => cases h

lemma neat_empty (k : Kind) : Neat trivia solid (.node k []) := by
  refine .node ⟨nofun, nofun, fun _ => ?_⟩ (List.forall_mem_nil _)
  rw [leaves_node]
  exact List.forall_mem_nil _

lemma neat_single (h : k ∉ trivia) (parent : Kind) : Neat trivia solid (.node parent [.token k text]) := by
  have hchild : ¬ (token k text).IsTokenIn trivia := not_isTokenIn_token h
  refine .node ⟨?_, ?_, fun _ => ?_⟩ (List.forall_mem_singleton.mpr (.token k text))
  · rintro c ⟨⟩
    exact hchild
  · rintro c ⟨⟩
    exact hchild
  · simpa using h

lemma neat_of_ends (hk : k ∉ solid) (hfirst : ¬ c.IsTokenIn trivia) (hlast : Closed trivia (c :: cs))
    (hbelow : ∀ t ∈ c :: cs, t.Neat trivia solid) : Neat trivia solid (.node k (c :: cs)) := by
  refine .node ⟨?_, ?_, fun hsolid => absurd hsolid hk⟩ hbelow
  · rintro d ⟨⟩
    exact hfirst
  · obtain ⟨before, t, heq, ht⟩ := hlast
    rw [children, heq, List.getLast?_concat]
    rintro d ⟨⟩
    exact ht

/-- Trees that may stand at the end of a node. -/
structure Row (trivia solid : List Kind) (ts : List Tree) : Prop where
  neat : ∀ t ∈ ts, t.Neat trivia solid
  closed : Closed trivia ts

lemma row_singleton (h : t.Neat trivia solid) (ht : ¬ t.IsTokenIn trivia) : Row trivia solid [t] :=
  ⟨List.forall_mem_singleton.mpr h, closed_singleton.mpr ht⟩

lemma Row.append (h : Row trivia solid ts) (hus : ∀ t ∈ us, t.Neat trivia solid) : Row trivia solid (us ++ ts) :=
  ⟨List.forall_mem_append.mpr ⟨hus, h.neat⟩, h.closed.append us⟩

lemma Row.node (h : Row trivia solid (c :: cs)) (hc : ¬ c.IsTokenIn trivia) (hk : k ∉ solid) :
    Neat trivia solid (.node k (c :: cs)) :=
  neat_of_ends hk hc h.closed h.neat

lemma Neat.trimmed (h : n.Neat trivia solid) (hn : n.isNode = true) : n.Trimmed trivia solid := by
  cases h with
  | token => cases hn
  | node trimmed below => exact trimmed

lemma Neat.at? (h : t.Neat trivia solid) (hn : t.at? path = some n) : n.Neat trivia solid := by
  induction path generalizing t with
  | nil => exact Option.some.inj hn ▸ h
  | cons i path ih =>
    obtain ⟨c, hc, hbelow⟩ := at?_cons_eq_some hn
    cases h with
    | token => cases hc
    | node trimmed below => exact ih (below c (List.mem_of_getElem? hc)) hbelow

lemma trimmedBelow_of_children (h : ∀ c ∈ cs, c.Neat trivia solid) (k : Kind) :
    (node k cs).TrimmedBelow trivia solid := by
  intro path n hpath hn hnode
  obtain ⟨i, path, rfl⟩ := List.exists_cons_of_ne_nil hpath
  obtain ⟨c, hc, hn⟩ := at?_cons_eq_some hn
  exact ((h c (List.mem_of_getElem? hc)).at? hn).trimmed hnode

end
end LosslessTree.Tree

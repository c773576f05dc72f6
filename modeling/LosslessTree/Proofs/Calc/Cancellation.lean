import LosslessTree.Proofs.Calc.Reading
import LosslessTree.Proofs.Language.Cancellation

/-! Cancelling the parser of arithmetic expressions. After a cancellation the calls that are open still
return one by one, and none of them takes another lexeme. -/
namespace LosslessTree.Calc
open Feed Lexeme

section
variable {limit : Feed.Limit Symbol} {p q : Parser} {ts : List Tree}

lemma steady_missing : limit.Steady missing := Limit.steady_id.node Symbol.error

lemma steady_errorBump : limit.Steady errorBump :=
  (Limit.steady_bump.node Symbol.error).comp Limit.steady_eatTrivia

lemma steady_expect (s : Symbol) : limit.Steady (expect s) :=
  Limit.steady_bump.choose (c := (· = some s)) steady_missing

/-- Without a symbol to see, an operand is a gap. -/
lemma stopped_operand (hp : limit.Stopped p) : limit.Stopped (operand p).val.2 := by
  rw [operand_val, hp.peek]
  exact steady_missing.stopped p hp

lemma stopped_operations (power : Nat) (before : Checkpoint) (hp : limit.Stopped p) :
    limit.Stopped (operations power before p).val := by
  rw [operations_val, hp.peek]
  exact hp

lemma stopped_expression (power : Nat) (hp : limit.Stopped p) : limit.Stopped (expression power p).val := by
  have hoperand := stopped_operand (Limit.steady_eatTrivia.stopped p hp)
  rw [expression_val]
  split_ifs
  · exact stopped_operations _ _ hoperand
  · exact hoperand

/-- The limited parser follows through expressions of every power. -/
def Kept (limit : Feed.Limit Symbol) (q : Parser) : Prop :=
  ∀ power, limit.Shadow (expression power (limit.on q)).val (expression power q).val

lemma adds_expression (hq : q.Live) (power : Nat) : ∃ ts, q.Adds ts (expression power q).val := by
  obtain ⟨ts, -, hts⟩ := follows hq power
  exact ⟨ts, hts⟩

/-- Right after a lexeme an expression is taken up at a place with less ahead. -/
lemma kept_bump (hq : limit.OnTime q) {bound : Nat} (hlt : q.bump.left < bound)
    (ih : ∀ r, limit.OnTime r → r.left < bound → Kept limit r) (power : Nat) :
    limit.Shadow (expression power (limit.on q).bump).val (expression power q.bump).val ∧
      ∃ ts, q.Adds ts (expression power q.bump).val := by
  have hbump := Limit.steady_bump.onTime q hq
  refine ⟨hbump.step (f := fun p => (expression power p).val) (g := fun p => (expression power p).val)
    (fun _ hp => stopped_expression power hp) fun hr => ih _ hr hlt power, ?_⟩
  have hsteady : limit.Steady Feed.bump := Limit.steady_bump
  obtain ⟨ts, hts⟩ := hsteady.adds q hq.live
  obtain ⟨us, hus⟩ := adds_expression (hts.live hq.live) power
  exact ⟨ts ++ us, hts.trans hus⟩

/-- The limited parser finds the operand, and finds that there is one, unless it is stopped on the way. -/
lemma kept_operand (hq : limit.OnTime q) (ih : ∀ r, limit.OnTime r → r.left < q.left → Kept limit r) :
    limit.Shadow (operand (limit.on q)).val.2 (operand q).val.2 ∧
      (operand (limit.on q)).val.1 = (operand q).val.1 := by
  rw [operand_val, operand_val, Limit.peek_on]
  cases hpeek : q.peek with
  | none => exact ⟨steady_missing.onTime q hq, rfl⟩
  | some s =>
    have hnode := fun s => kept_bump (hq.start s) (left_bump_start_lt s (left_pos_of_peek hpeek)) ih
    have hsigned : limit.Shadow (expression signPower ((limit.on q).start .signed).bump).val.finish
        (expression signPower (q.start .signed).bump).val.finish := by
      obtain ⟨hinner, ts, hts⟩ := hnode .signed signPower
      exact hinner.finish ((hts.node hq.live).live hq.live)
    cases s with
    | number => exact ⟨Limit.steady_bump.onTime q hq, rfl⟩
    | ident => exact ⟨Limit.steady_bump.onTime q hq, rfl⟩
    | leftParen =>
      obtain ⟨hinner, ts, hts⟩ := hnode .parens 0
      have hsteady : limit.Steady (expect .rightParen) := steady_expect .rightParen
      have hclose := hsteady.shadow hinner
      obtain ⟨us, hus⟩ := hsteady.adds _ (hts.live (hq.live.start _))
      exact ⟨hclose.finish (((hts.trans hus).node hq.live).live hq.live), rfl⟩
    | plus => exact ⟨hsigned, rfl⟩
    | minus => exact ⟨hsigned, rfl⟩
    | rightParen => exact ⟨steady_missing.onTime q hq, rfl⟩
    | _ => exact ⟨steady_errorBump.onTime q hq, rfl⟩

lemma adds_operand (hq : q.Live) : ∃ ts, q.eatTrivia.Adds ts (operand q.eatTrivia).val.2 := by
  obtain ⟨hadds, hrest⟩ := hq.eatTrivia
  rcases operand_follows (hadds.live hq) (by rw [hrest, pending_pending]) (fun r hr _ => follows hr) with
    ⟨-, ts, -, hts⟩ | ⟨-, -, -, hts⟩
  · exact ⟨ts, hts⟩
  · exact ⟨[gap], hts⟩

/-- The limited parser wraps the same operators around what was added since `p`. -/
lemma kept_operations {bound : Nat} (ih : ∀ r, limit.OnTime r → r.left < bound → Kept limit r) (power : Nat)
    (hp : p.Live) (h : p.Adds ts q) (hq : limit.OnTime q) (hle : q.left ≤ bound) :
    limit.Shadow (operations power p.builder.checkpoint (limit.on q)).val
      (operations power p.builder.checkpoint q).val := by
  obtain ⟨m, hleft⟩ : ∃ m, q.left = m := ⟨_, rfl⟩
  induction m using Nat.strong_induction_on generalizing q ts with
  | _ m ihm =>
    rw [operations_val, operations_val, Limit.peek_on]
    cases hb : q.peek.bind bindingPower? with
    | none => exact hq.shadow
    | some powers =>
      obtain ⟨low, high⟩ := powers
      by_cases hweak : low < power
      · simp only [if_pos hweak]
        exact hq.shadow
      · simp only [if_neg hweak]
        obtain ⟨s, hpeek, -⟩ := Option.bind_eq_some_iff.mp hb
        have hpos := left_pos_of_peek hpeek
        have hstart := hq.startAt (h.startAt hp .binary)
        have hlt : (q.startAt p.builder.checkpoint .binary).bump.left < q.left :=
          Nat.lt_of_le_of_lt (left_bump_le _) (Nat.sub_one_lt_of_lt hpos)
        obtain ⟨hright, us, hus⟩ := kept_bump hstart (Nat.lt_of_lt_of_le hlt hle) ih high
        have hwrap := h.wrap hp hus
        have hshadow := hright.finish (hwrap.live hp)
        have hless : (expression high (q.startAt p.builder.checkpoint .binary).bump).val.finish.left < q.left :=
          Nat.lt_of_le_of_lt (expression high _).property hlt
        refine hshadow.step (f := fun r => (operations power p.builder.checkpoint r).val)
          (g := fun r => (operations power p.builder.checkpoint r).val)
          (fun _ hr => stopped_operations _ _ hr) fun hr => ?_
        exact ihm _ (hleft ▸ hless) hwrap hr (Nat.le_of_lt (Nat.lt_of_lt_of_le hless hle)) rfl

/-- Through every nesting, the limited parser does the same as the other one until it is stopped. -/
theorem kept (hq : limit.OnTime q) : Kept limit q := by
  obtain ⟨m, hleft⟩ : ∃ m, q.left = m := ⟨_, rfl⟩
  induction m using Nat.strong_induction_on generalizing q with
  | _ m ih =>
    intro power
    have hle := left_eatTrivia_le q
    have hih : ∀ r : Parser, limit.OnTime r → r.left < m → Kept limit r := fun r hr hlt => ih _ hlt hr rfl
    rw [expression_val, expression_val]
    rcases Limit.steady_eatTrivia.onTime q hq with ⟨htrivia, heq⟩ | hstopped
    · obtain ⟨hoperand, hfound⟩ := kept_operand htrivia fun r hr hlt => hih r hr (by omega)
      rw [heq, hfound]
      by_cases h : (operand q.eatTrivia).val.1 = true
      · rw [if_pos h, if_pos h]
        obtain ⟨ts, hts⟩ := adds_operand hq.live
        refine hoperand.step (f := fun r => (operations power q.eatTrivia.builder.checkpoint r).val)
          (g := fun r => (operations power q.eatTrivia.builder.checkpoint r).val)
          (fun _ hr => stopped_operations _ _ hr) fun hr => ?_
        have hleft' := (operand q.eatTrivia).property.1
        exact kept_operations hih power htrivia.live hts hr (by omega)
      · rw [if_neg h, if_neg h]
        exact hoperand
    · right
      split_ifs
      · exact stopped_operations _ _ (stopped_operand hstopped)
      · exact stopped_operand hstopped

lemma steady_expression (power : Nat) : limit.Steady fun p => (expression power p).val :=
  ⟨fun _ hq => adds_expression hq power, fun _ hp => stopped_expression power hp, fun _ hq => kept hq power⟩

lemma steady_item (s : Symbol) : limit.Steady (item s) := by
  unfold item
  split_ifs
  · exact steady_expression 0
  · exact steady_errorBump

lemma expressions_of_none (h : p.eatTrivia.peek = none) : expressions p = p.eatTrivia := by
  rw [expressions]
  split
  · rfl
  · next h' => rw [h] at h'; cases h'

lemma expressions_of_some {s : Symbol} (h : p.eatTrivia.peek = some s) :
    expressions p = expressions (item s p.eatTrivia) := by
  rw [expressions]
  split
  · next h' => rw [h] at h'; cases h'
  · next s' h' =>
    obtain rfl : s = s' := Option.some.inj (h.symm.trans h')
    rfl

lemma stopped_expressions (hp : limit.Stopped p) : limit.Stopped (expressions p) := by
  have htrivia := Limit.steady_eatTrivia.stopped p hp
  rwa [expressions_of_none htrivia.peek]

/-- The limited parser follows to the end of the text. -/
theorem kept_expressions (hq : limit.OnTime q) : limit.Shadow (expressions (limit.on q)) (expressions q) := by
  fun_induction expressions q with
  | case1 q h =>
    rcases Limit.steady_eatTrivia.onTime q hq with ⟨htrivia, heq⟩ | hstopped
    · have hnone : (limit.on q).eatTrivia.peek = none := by rw [heq, Limit.peek_on, h]
      rw [expressions_of_none hnone, heq]
      exact htrivia.shadow
    · right
      rwa [expressions_of_none hstopped.peek]
  | case2 q s h ih =>
    rcases Limit.steady_eatTrivia.onTime q hq with ⟨htrivia, heq⟩ | hstopped
    · have hsome : (limit.on q).eatTrivia.peek = some s := by rw [heq, Limit.peek_on, h]
      rw [expressions_of_some hsome, heq]
      exact ((steady_item s).onTime _ htrivia).step (fun _ hp => stopped_expressions hp) ih
    · right
      rwa [expressions_of_none hstopped.peek]

/-- At the end of the text nothing is left to feed. -/
lemma rest_expressions (hp : p.Live) : (expressions p).rest = [] := by
  fun_induction expressions p with
  | case1 p h =>
    obtain ⟨hadds, hrest⟩ := hp.eatTrivia
    rw [(hadds.live hp).peek, hrest, next?_pending] at h
    rw [hrest, pending_eq_nil_of_next? h]
  | case2 p s h ih =>
    obtain ⟨hadds, -⟩ := hp.eatTrivia
    have hlive := hadds.live hp
    have hsteady : (⟨{}, [], 0⟩ : Feed.Limit Symbol).Steady (item s) := steady_item s
    obtain ⟨ts, hts⟩ := hsteady.adds _ hlive
    exact ih (hts.live hlive)

end

/-- What parsing comes to if only so many checks pass. -/
theorem checksLexemes (src : Bytes) (cache : Cache) (n : Nat) :
    ChecksLexemes "calc" (lex src) cache (parse src cache) n := by
  have hroot := Limit.onTime_root Symbol.root (lex src) cache n
  obtain ⟨ts, -, hparse⟩ := parse_items src cache
  have hkept := kept_expressions hroot
  rw [Limit.on_root] at hkept
  exact hkept.checksLexemes (rest_expressions hroot.live) hparse rfl rfl

end LosslessTree.Calc

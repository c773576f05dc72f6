import LosslessTree.Language.Cancellation
import LosslessTree.Language.Lexeme
import LosslessTree.Tree.Builder

/-! Feeding lexemes to a builder. A parser looks ahead over trivia, decides, and moves lexemes into the
tree one by one; every 256th lexeme is preceded by a check for cancellation, after which nothing more
is fed and the text appears to have ended. -/
namespace LosslessTree

inductive ParseError where
  | cancelled (language : String)
  | build (language : String) (cause : BuildError)
  deriving DecidableEq, Repr

def ParseError.message : ParseError → Bytes
  | .cancelled language => "parse " ++ language ++ ": " ++ Cancellation.message
  | .build language cause => "parse " ++ language ++ ": " ++ cause.message

/-- What a parse leaves behind. -/
structure Parsed where
  result : Except ParseError Tree
  cache : Cache
  cancellation : Cancellation

/-- How many tokens are fed between two checks for cancellation. -/
def checkInterval : Nat := 256

structure Feed (σ : Type) where
  rest : List (Lexeme σ)
  builder : Builder
  cancellation : Cancellation
  fed : Nat := 0
  cancelled : Bool := false

namespace Feed

variable {σ : Type} [Symbols σ]

def start (p : Feed σ) (s : σ) : Feed σ := { p with builder := p.builder.start (Symbols.kind s) }

def finish (p : Feed σ) : Feed σ := { p with builder := p.builder.finishNode }

def startAt (p : Feed σ) (cp : Checkpoint) (s : σ) : Feed σ :=
  { p with builder := p.builder.startAt cp (Symbols.kind s) }

/-- Moves the next lexeme into the tree. -/
def feed (p : Feed σ) : Feed σ :=
  if p.cancelled then p
  else match p.rest with
    | [] => p
    | lexeme :: rest =>
      let checks := (p.fed + 1) % checkInterval == 0
      let p := { p with
        fed := p.fed + 1
        cancellation := if checks then p.cancellation.next else p.cancellation
        cancelled := checks && p.cancellation.isDue }
      if p.cancelled then p
      else { p with
        rest := rest
        builder := p.builder.token (Symbols.kind lexeme.symbol) lexeme.text }

/-- Feeds the trivia at the start of `ahead`, the lexemes not yet fed. -/
def feedTrivia (ahead : List (Lexeme σ)) (p : Feed σ) : Feed σ :=
  match ahead with
  | [] => p
  | lexeme :: ahead =>
    if !p.cancelled && Symbols.isTrivia lexeme.symbol then feedTrivia ahead p.feed else p

def eatTrivia (p : Feed σ) : Feed σ := p.feedTrivia p.rest

/-- The next symbol that is not trivia. -/
def peek (p : Feed σ) : Option σ :=
  if p.cancelled then none
  else (p.rest.find? fun lexeme => !Symbols.isTrivia lexeme.symbol).map Lexeme.symbol

/-- Feeds pending trivia and the lexeme after it. -/
def bump (p : Feed σ) : Feed σ := p.eatTrivia.feed

/-- How many lexemes can still be fed; none after a cancellation. -/
def left (p : Feed σ) : Nat := if p.cancelled then 0 else p.rest.length

theorem left_feed_le (p : Feed σ) : p.feed.left ≤ p.left - 1 := by
  unfold left
  cases hc : p.cancelled with
  | true => simp [feed, hc]
  | false =>
    cases hr : p.rest with
    | nil => simp [feed, hc, hr]
    | cons lexeme rest =>
      cases hd : (p.fed + 1) % checkInterval == 0 && p.cancellation.isDue <;> simp [feed, hc, hr, hd]

theorem left_feedTrivia_le (ahead : List (Lexeme σ)) (p : Feed σ) :
    (p.feedTrivia ahead).left ≤ p.left := by
  induction ahead generalizing p with
  | nil => exact Nat.le_refl _
  | cons lexeme ahead ih =>
    unfold feedTrivia
    split
    · have := ih p.feed
      have := left_feed_le p
      omega
    · exact Nat.le_refl _

theorem left_eatTrivia_le (p : Feed σ) : p.eatTrivia.left ≤ p.left := left_feedTrivia_le p.rest p

theorem left_pos_of_peek {p : Feed σ} {s : σ} (h : p.peek = some s) : 0 < p.left := by
  unfold peek at h
  split at h
  · cases h
  · next hc =>
    cases hr : p.rest with
    | nil => simp [hr] at h
    | cons lexeme rest => simp [left, hc, hr]

theorem left_bump_le (p : Feed σ) : p.bump.left ≤ p.left - 1 := by
  have := left_feed_le p.eatTrivia
  have := left_eatTrivia_le p
  unfold bump
  omega

/-- Trivia hide nothing: unless the feed is cancelled on the way, the next symbol stays the same. -/
theorem peek_feedTrivia (ahead : List (Lexeme σ)) (p : Feed σ) (hr : p.rest = ahead)
    (h : (p.feedTrivia ahead).cancelled = false) : (p.feedTrivia ahead).peek = p.peek := by
  induction ahead generalizing p with
  | nil => rfl
  | cons lexeme ahead ih =>
    unfold feedTrivia at h ⊢
    split
    · next ht =>
      obtain ⟨hc, ht⟩ : p.cancelled = false ∧ Symbols.isTrivia lexeme.symbol = true := by
        simpa using ht
      cases hd : (p.fed + 1) % checkInterval == 0 && p.cancellation.isDue with
      | true =>
        have hf : p.feed.cancelled = true := by simp [feed, hc, hr, hd]
        have hs : p.feed.feedTrivia ahead = p.feed := by
          cases ahead <;> simp [feedTrivia, hf]
        simp [hc, ht, hs, hf] at h
      | false =>
        have hf : p.feed.cancelled = false ∧ p.feed.rest = ahead := by simp [feed, hc, hr, hd]
        rw [ih p.feed hf.2 (by simpa [hc, ht] using h)]
        simp [peek, hf, hc, hr, ht]
    · rfl

theorem peek_eatTrivia {p : Feed σ} (h : p.eatTrivia.cancelled = false) :
    p.eatTrivia.peek = p.peek := peek_feedTrivia p.rest p rfl h

/-- Closes the root and gives the outcome. -/
def outcome (language : String) (p : Feed σ) : Parsed :=
  let (root, builder) := p.finish.builder.finish
  { result :=
      if p.cancelled then .error (.cancelled language)
      else match root with
        | .error e => .error (.build language e)
        | .ok tree => .ok tree
    cache := builder.cache
    cancellation := p.cancellation }

end Feed
end LosslessTree

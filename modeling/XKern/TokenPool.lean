import Mathlib.Data.Set.Insert
import Mathlib.Tactic

namespace XKern

/-!
# Pools of exclusively owned tokens

An allocator hands out tokens and takes them back.  The abstract state is the
set of free tokens and the set of tokens in somebody's hands; a run is a list
of moves between the two.  Tokens may also leave the pool for good, by being
retired while free or by being discarded instead of released.

The results are the ownership discipline of any such pool: free and held
tokens stay apart, a token that has left never comes back, and a token that
becomes free again was held and has been released.
-/

/-- Tokens that are free or held. -/
structure TokenPool (Token : Type) where
  free : Set Token
  held : Set Token

namespace TokenPool

variable {Token : Type}

/-- The moves of a pool. -/
inductive Move (Token : Type) where
  | acquire (token : Token)
  | release (token : Token)
  | discard (token : Token)
  | retire (tokens : Set Token)
  | idle

/-- What each move does. -/
inductive Step (before after : TokenPool Token) : Move Token → Prop where
  | acquire
      {token : Token}
      (wasFree : token ∈ before.free)
      (free : ∀ other,
        other ∈ after.free ↔ other ∈ before.free ∧ other ≠ token)
      (held : ∀ other,
        other ∈ after.held ↔ other = token ∨ other ∈ before.held) :
      Step before after (.acquire token)
  | release
      {token : Token}
      (wasHeld : token ∈ before.held)
      (free : ∀ other,
        other ∈ after.free ↔ other = token ∨ other ∈ before.free)
      (held : ∀ other,
        other ∈ after.held ↔ other ∈ before.held ∧ other ≠ token) :
      Step before after (.release token)
  | discard
      {token : Token}
      (wasHeld : token ∈ before.held)
      (free : ∀ other, other ∈ after.free ↔ other ∈ before.free)
      (held : ∀ other,
        other ∈ after.held ↔ other ∈ before.held ∧ other ≠ token) :
      Step before after (.discard token)
  | retire
      {tokens : Set Token}
      (free : ∀ other,
        other ∈ after.free ↔ other ∈ before.free ∧ other ∉ tokens)
      (held : ∀ other, other ∈ after.held ↔ other ∈ before.held) :
      Step before after (.retire tokens)
  | idle
      (free : ∀ other, other ∈ after.free ↔ other ∈ before.free)
      (held : ∀ other, other ∈ after.held ↔ other ∈ before.held) :
      Step before after .idle

/-- `Run pool moves after`: the moves lead from one pool to the other. -/
inductive Run :
    TokenPool Token → List (Move Token) → TokenPool Token → Prop where
  | done {pool : TokenPool Token} :
      Run pool [] pool
  | step
      {pool next after : TokenPool Token}
      {move : Move Token}
      {moves : List (Move Token)} :
      Step pool next move →
      Run next moves after →
      Run pool (move :: moves) after

/-- No token is both free and held. -/
def Exclusive (pool : TokenPool Token) : Prop :=
  ∀ token, token ∈ pool.free → token ∉ pool.held

variable {move : Move Token} {after before : TokenPool Token} {token : Token}
  {moves : List (Move Token)}

theorem Step.exclusive (step : Step before after move) (exclusive : before.Exclusive) :
    after.Exclusive := by
  intro token isFree isHeld
  have apart := exclusive token
  cases step with
  | acquire wasFree free held =>
    rw [free] at isFree
    rw [held] at isHeld
    rcases isHeld with isToken | wasHeld
    · exact isFree.2 isToken
    · exact apart isFree.1 wasHeld
  | release wasHeld free held =>
    rw [free] at isFree
    rw [held] at isHeld
    rcases isFree with isToken | wasFree
    · exact isHeld.2 isToken
    · exact apart wasFree isHeld.1
  | discard wasHeld free held =>
    rw [free] at isFree
    rw [held] at isHeld
    exact apart isFree isHeld.1
  | retire free held =>
    rw [free] at isFree
    rw [held] at isHeld
    exact apart isFree.1 isHeld
  | idle free held =>
    rw [free] at isFree
    rw [held] at isHeld
    exact apart isFree isHeld

/-- A token that is neither free nor held has left the pool. -/
def Gone (pool : TokenPool Token) (token : Token) : Prop :=
  token ∉ pool.free ∧ token ∉ pool.held

theorem Step.gone (step : Step before after move) (gone : before.Gone token) :
    after.Gone token := by
  obtain ⟨notFree, notHeld⟩ := gone
  cases step with
  | acquire wasFree free held =>
    rw [Gone, free, held]
    refine ⟨fun isFree => notFree isFree.1, ?_⟩
    rintro (isToken | isHeld)
    · exact notFree (isToken ▸ wasFree)
    · exact notHeld isHeld
  | release wasHeld free held =>
    rw [Gone, free, held]
    refine ⟨?_, fun isHeld => notHeld isHeld.1⟩
    rintro (isToken | isFree)
    · exact notHeld (isToken ▸ wasHeld)
    · exact notFree isFree
  | discard wasHeld free held =>
    rw [Gone, free, held]
    exact ⟨notFree, fun isHeld => notHeld isHeld.1⟩
  | retire free held =>
    rw [Gone, free, held]
    exact ⟨fun isFree => notFree isFree.1, notHeld⟩
  | idle free held =>
    rw [Gone, free, held]
    exact ⟨notFree, notHeld⟩

theorem Run.gone {initial final : TokenPool Token} (run : Run initial moves final)
    (gone : initial.Gone token) :
    final.Gone token := by
  induction run with
  | done => exact gone
  | step first later ih =>
    exact ih (first.gone gone)

theorem Step.released (step : Step before after move) (notFree : token ∉ before.free)
    (isFree : token ∈ after.free) :
    move = .release token := by
  cases step with
  | acquire _ free _ => exact (notFree ((free token).mp isFree).1).elim
  | release _ free _ =>
    rcases (free token).mp isFree with isToken | wasFree
    · rw [isToken]
    · exact (notFree wasFree).elim
  | discard _ free _ => exact (notFree ((free token).mp isFree)).elim
  | retire free _ => exact (notFree ((free token).mp isFree).1).elim
  | idle free _ => exact (notFree ((free token).mp isFree)).elim

/--
A token that was not free at the start and is free at the end was held at the
start and has been released on the way.
-/
theorem Run.held_and_released {initial final : TokenPool Token} (run : Run initial moves final)
    (notFree : token ∉ initial.free) (isFree : token ∈ final.free) :
    token ∈ initial.held ∧ .release token ∈ moves := by
  constructor
  · by_contra notHeld
    exact (run.gone ⟨notFree, notHeld⟩).1 isFree
  · induction run with
    | done => exact (notFree isFree).elim
    | @step pool next after move moves first later ih =>
      by_cases nextFree : token ∈ next.free
      · rw [first.released notFree nextFree]
        exact List.mem_cons_self
      · exact List.mem_cons_of_mem _ (ih nextFree isFree)

end TokenPool

end XKern

import XKern.SpaceLoad
import XKern.Task

namespace XKern

open FaultTriple List BitVec

/-!
# The argument block of a task

Model of `task_build_argv` in `bsd/kern/init_ram_getty/fs.c`.  The command line
is cut into tokens, and the pointer array and the strings are stored at
`ARGV_BASE` in the address space of the task.
-/

/-- `FS_MAX_ARGS`. -/
def fsMaxArgs : Nat := 32

/-- `FS_MAX_TOK`. -/
def fsMaxTok : Nat := 255

/-- `ARGV_BASE`. -/
def argvBase : U64 := 0x08100000

def isBlank (c : U8) : Bool :=
  c = 0x20 || c = 0x09 || c = 0x0A

/-- `in_single` and `in_double`, which are never both set. -/
inductive Quoting
  | plain
  | inSingle
  | inDouble
  deriving Repr, DecidableEq

/-- `if (wlen < FS_MAX_TOK - 1) toks[argc][wlen++] = c`. -/
def pushChar (token : List U8) (c : U8) : List U8 :=
  if token.length < fsMaxTok - 1 then token ++ [c] else token

def readToken (quoting : Quoting) (token : List U8) :
    List U8 → List U8 × List U8
  | [] => (token, [])
  | c :: rest =>
      match quoting with
      | .inSingle =>
          if c = 0x27 then readToken .plain token rest
          else readToken .inSingle (pushChar token c) rest
      | .inDouble =>
          if c = 0x22 then readToken .plain token rest
          else readToken .inDouble (pushChar token c) rest
      | .plain =>
          if isBlank c then (token, c :: rest)
          else if c = 0x27 then readToken .inSingle token rest
          else if c = 0x22 then readToken .inDouble token rest
          else readToken .plain (pushChar token c) rest

/-- The outer loop, with the number of arguments that still fit. -/
def readTokens : Nat → List U8 → List (List U8)
  | 0, _ => []
  | count + 1, line =>
      match line.dropWhile isBlank with
      | [] => []
      | c :: rest =>
          let (token, later) := readToken .plain [] (c :: rest)
          token :: readTokens count later

/-- The tokens of the line, or the name of the task if there are none. -/
def argvTokens (name : TaskName) (argline : Option (List U8)) :
    List (List U8) :=
  match readTokens fsMaxArgs (argline.getD []) with
  | [] => [0x2F :: name.chars]
  | tokens => tokens

/-- `need`: the pointers with their terminator, and the strings with theirs. -/
def argvNeed (tokens : List (List U8)) : Nat :=
  (tokens.length + 1) * 8 + (tokens.map fun token => token.length + 1).sum

/-- The loop that stores pointer `i` and its string at `s`. -/
def storeArgv : List (List U8) → Nat → U64 → KernelM Unit
  | [], _, _ => return ()
  | token :: tokens, i, s => do
      storeWord (argvBase + .ofNat 64 (8 * i)) s
      storeBytes (token ++ [0]) s
      storeArgv tokens (i + 1) (s + .ofNat 64 (token.length + 1))

/-- The part of `task_build_argv` that runs under the CR3 of the task. -/
def fillArgv (alloc : AllocAndMap) (tokens : List (List U8)) :
    KernelM (Option (U64 × U64)) := do
  let allMapped ← mapPages alloc (pageWrite.setWidth 32)
    (argvBase + .ofNat 64 (argvNeed tokens)) pageLoopFuel
    (argvBase &&& ~~~(pageSize - 1))
  if !allMapped then
    return none
  else do
    storeArgv tokens 0
      (argvBase + .ofNat 64 (8 * (tokens.length + 1)))
    storeWord (argvBase + .ofNat 64 (8 * tokens.length)) 0
    return some (argvBase, .ofNat 64 tokens.length)

/-- `task_build_argv`: the address of the array and the count; `none` is 0. -/
def taskBuildArgv (alloc : AllocAndMap) (cr3 : U64) (name : TaskName)
    (argline : Option (List U8)) : KernelM (Option (U64 × U64)) :=
  let tokens := argvTokens name argline
  if .ofNat 64 (argvNeed tokens) > (0x100000 : U64) then
    return none
  else
    withCr3 cr3 (fillArgv alloc tokens)

/-! ## The size of the block -/

theorem length_pushChar {token : List U8} (short : token.length < fsMaxTok) (c : U8) :
    (pushChar token c).length < fsMaxTok := by
  unfold pushChar
  split
  · rw [length_append, length_singleton]
    omega
  · exact short

theorem length_readToken (line : List U8) (quoting : Quoting) {token : List U8}
    (short : token.length < fsMaxTok) :
    (readToken quoting token line).1.length < fsMaxTok := by
  induction line generalizing quoting token with
  | nil => exact short
  | cons c rest ih =>
    have grown := length_pushChar short c
    cases quoting with
    | inSingle =>
      rw [readToken]
      split
      · exact ih _ short
      · exact ih _ grown
    | inDouble =>
      rw [readToken]
      split
      · exact ih _ short
      · exact ih _ grown
    | plain =>
      rw [readToken]
      split
      · exact short
      · split
        · exact ih _ short
        · split
          · exact ih _ short
          · exact ih _ grown

theorem readTokens_bounds (count : Nat) (line : List U8) : (readTokens count line).length ≤ count ∧
      ∀ token ∈ readTokens count line, token.length < fsMaxTok := by
  induction count generalizing line with
  | zero => simp [readTokens]
  | succ count ih =>
    rw [readTokens]
    split
    · simp
    · rename_i c rest _
      obtain ⟨few, short⟩ := ih (readToken .plain [] (c :: rest)).2
      refine ⟨by simpa using few, ?_⟩
      intro token member
      rcases mem_cons.mp member with rfl | later
      · exact length_readToken (c :: rest) .plain (by decide : ([] : List U8).length < fsMaxTok)
      · exact short token later

theorem argvTokens_bounds (name : TaskName) (argline : Option (List U8)) :
    (argvTokens name argline).length ≤ fsMaxArgs ∧
      ∀ token ∈ argvTokens name argline, token.length < fsMaxTok := by
  have fits := name.fits
  unfold argvTokens
  split
  · refine ⟨by simp [fsMaxArgs], ?_⟩
    intro token member
    rw [mem_singleton.mp member, length_cons]
    unfold taskNameMax at fits
    unfold fsMaxTok
    omega
  · exact readTokens_bounds _ _

theorem argvNeed_le (name : TaskName) (argline : Option (List U8)) :
    argvNeed (argvTokens name argline) ≤ 8424 := by
  obtain ⟨few, short⟩ := argvTokens_bounds name argline
  have strings : ((argvTokens name argline).map fun token => token.length + 1).sum ≤
        (argvTokens name argline).length * 255 := by
    have each := sum_le_card_nsmul ((argvTokens name argline).map fun token => token.length + 1) 255
      (by
        intro size member
        obtain ⟨token, isToken, rfl⟩ := mem_map.mp member
        exact short token isToken)
    simpa using each
  unfold fsMaxArgs at few
  rw [argvNeed]
  omega

/-! ## The effect on the address spaces -/

/-- The page of `va` is one of those of the block. -/
def ArgvMaps (name : TaskName) (argline : Option (List U8)) (va : U64) : Prop :=
  Touches argvBase
    (argvBase + .ofNat 64 (argvNeed (argvTokens name argline))) va

theorem toNat_argvEnd (need : Nat) (small : need ≤ 8424) :
    (argvBase + .ofNat 64 need).toNat = 0x08100000 + need := by
  have base : argvBase.toNat = 0x08100000 := rfl
  rw [toNat_add, toNat_ofNat, base]
  omega

theorem ArgvMaps.ordinary {name : TaskName} {argline : Option (List U8)} {va : U64}
    (maps : ArgvMaps name argline va) :
    pml4Index va ≠ 511 := by
  obtain ⟨page, _, toStop, samePage⟩ := maps
  rw [lt_def, toNat_argvEnd _ (argvNeed_le name argline)] at toStop
  have small := argvNeed_le name argline
  simp only [vaPath, List.cons.injEq] at samePage
  rw [← samePage.1]
  intro recursive
  have value := congrArg Fin.val recursive
  rw [pml4Index, val_tableIndex] at value
  change _ = 511 at value
  omega

section Block

variable {site : LoadSite} {mapped : U64 → Prop}

theorem storeArgv_triple {size : Nat} (inBlock : ∀ k < size, mapped (argvBase + .ofNat 64 k))
    (tokens : List (List U8)) (i used : Nat) (pointers : 8 * (i + tokens.length) ≤ size)
    (strings : used + (tokens.map fun token => token.length + 1).sum ≤ size) :
    KeepsPages site mapped (storeArgv tokens i (argvBase + .ofNat 64 used)) := by
  induction tokens generalizing i used with
  | nil => exact .skip _
  | cons token tokens ih =>
    rw [length_cons] at pointers
    rw [map_cons, sum_cons] at strings
    rw [storeArgv]
    apply Triple.bind (storeWord_triple (inBlock (8 * i) (by omega)) _)
    intro _
    apply Triple.bind (storeBytes_triple (token ++ [0]) ?_)
    · intro _
      rw [add_assoc, ← ofNat_add]
      exact ih (i + 1) (used + (token.length + 1)) (by omega) (by omega)
    · intro k small
      rw [length_append, length_singleton] at small
      rw [add_assoc, ← ofNat_add]
      exact inBlock (used + k) (by omega)

theorem fillArgv_triple {name : TaskName} {argline : Option (List U8)}
    (inTarget : ∀ va, ArgvMaps name argline va → site.target va) :
    KeepsPages site (fun _ => False) (fillArgv allocAndMap (argvTokens name argline)) := by
  have small := argvNeed_le name argline
  have size : argvNeed (argvTokens name argline) = ((argvTokens name argline).length + 1) * 8 +
        ((argvTokens name argline).map fun token => token.length + 1).sum := rfl
  have stop := toNat_argvEnd _ small
  have base : argvBase &&& ~~~(pageSize - 1) = argvBase := by decide
  rw [fillArgv, base]
  apply Triple.bind (mapPages_triple _ (by omega) pageLoopFuel (by decide)
    fun va touches => ⟨inTarget va touches, ArgvMaps.ordinary touches⟩)
  intro allMapped
  apply Triple.ite
  · intro _
    exact Triple.pure fun _ load => load.weaken nofun
  · intro isMapped
    have all : allMapped = true := by simpa using isMapped
    have inBlock : ∀ k < argvNeed (argvTokens name argline), False ∨ (allMapped = true ∧
          Touches argvBase (argvBase + BitVec.ofNat 64 (argvNeed (argvTokens name argline)))
            (argvBase + BitVec.ofNat 64 k)) := by
      intro k inside
      have place := toNat_argvEnd k (by omega)
      have baseValue : argvBase.toNat = 0x08100000 := rfl
      refine Or.inr ⟨all, argvBase + BitVec.ofNat 64 k, ?_, ?_, rfl⟩
      · rw [le_def, place]
        omega
      · rw [lt_def, place, stop]
        omega
    apply Triple.bind (storeArgv_triple inBlock _ 0 _ (by omega) (by omega))
    intro _
    apply Triple.bind (storeWord_triple (inBlock _ (by omega)) 0)
    intro _
    exact Triple.pure fun _ load => load.weaken nofun

/-- The block is built through the active mapping as on physical memory. -/
theorem fillArgv_active {name : TaskName} {argline : Option (List U8)} {machine : Machine}
    (inTarget : ∀ va, ArgvMaps name argline va → site.target va)
    (mappable : Mappable site machine) :
    fillArgv Active.pagingAllocAndMap (argvTokens name argline) machine =
      fillArgv allocAndMap (argvTokens name argline) machine := by
  have stop := toNat_argvEnd _ (argvNeed_le name argline)
  have small := argvNeed_le name argline
  have base : argvBase &&& ~~~(pageSize - 1) = argvBase := by decide
  rw [fillArgv, fillArgv, base]
  exact bind_congr_run (mapPages_agrees _ (by omega) pageLoopFuel
    (fun va touches => ⟨inTarget va touches, ArgvMaps.ordinary touches⟩) machine mappable).1

end Block

end XKern

import CanonicalLR.First.FixedPoint

/-!
# FIRST sets with a memo

There are two strategies.  The guarded strategy follows only the first symbol of each alternative
and lets a symbol that is being expanded contribute nothing to its own expansion.  It keeps every
set that it computes, also one computed while other symbols were being expanded, so an answer can
depend on what was asked before.  The fixed point strategy starts with the least solution of the
FIRST equations for all nonterminals.

A `Memo` holds the sets known so far.  Every query takes a memo and returns the memo after it;
entries are only ever added.
-/

namespace CanonicalLR

/-- How FIRST sets of nonterminals are computed. -/
inductive FirstStrategy where
  | guarded
  | fixedPoint
deriving DecidableEq, Repr

/-- The FIRST sets known so far, of nonterminals and of symbol strings, the newest first. -/
structure Memo where
  symbols : Entries Symbol SymbolSet
  strings : Entries (List Symbol) SymbolSet
deriving DecidableEq

namespace Memo

/-- Nothing is known. -/
def blank : Memo := ⟨[], []⟩

instance : Inhabited Memo := ⟨blank⟩

/-- Keeps the set of a nonterminal. -/
def keep (memo : Memo) (x : Symbol) (set : SymbolSet) : Memo :=
  { memo with symbols := (x, set) :: memo.symbols }

/-- Keeps the set of a symbol string. -/
def keepString (memo : Memo) (xs : List Symbol) (set : SymbolSet) : Memo :=
  { memo with strings := (xs, set) :: memo.strings }

end Memo

namespace Grammar

/-- The nonterminals that are not being expanded. -/
def idle (g : Grammar) (busy : List Symbol) : List Symbol :=
  g.nonterminals.filter fun x => !busy.contains x

/-- Expanding an idle nonterminal leaves fewer idle ones. -/
theorem length_idle_cons_lt {g : Grammar} {busy : List Symbol} {x : Symbol}
    (known : g.isNonterminal x = true) (free : ¬ busy.contains x = true) :
    (g.idle (x :: busy)).length < (g.idle busy).length := by
  have split : g.idle (x :: busy) = (g.idle busy).filter (· != x) := by
    rw [idle, idle, List.filter_filter]
    refine List.filter_congr fun y _ => ?_
    by_cases h : y = x <;> simp [h]
  rw [split]
  refine List.length_filter_lt_length_iff_exists.2 ⟨x, ?_, by simp⟩
  refine List.mem_filter.2 ⟨?_, by simpa using free⟩
  simpa [isNonterminal] using known

/-- FIRST of a symbol while the symbols in `busy` are being expanded.  A symbol that is no
nonterminal stands for itself, a busy one contributes nothing, a known set is returned as it is,
and otherwise the alternatives are visited in order, each by its first symbol. -/
def firstWhile (g : Grammar) (busy : List Symbol) (x : Symbol) (memo : Memo) : SymbolSet × Memo :=
  if _known : g.isNonterminal x = true then
    if _free : busy.contains x = true then (∅, memo)
    else
      match memo.symbols.lookup x with
      | some set => (set, memo)
      | none =>
        let found := (g.alternatives x).foldl (fun (acc : SymbolSet × Memo) rhs =>
          match rhs with
          | [] => (acc.1.insert epsilon, acc.2)
          | y :: _ =>
            let answer := g.firstWhile (x :: busy) y acc.2
            (acc.1 ∪ answer.1, answer.2)) (∅, memo)
        (found.1, found.2.keep x found.1)
  else (.singleton x, memo)
termination_by (g.idle busy).length
decreasing_by exact length_idle_cons_lt _known _free

/-- FIRST of a symbol. -/
def first (g : Grammar) (x : Symbol) (memo : Memo) : SymbolSet × Memo := g.firstWhile [] x memo

/-- FIRST of a symbol string from the FIRST sets of its symbols, asked from left to right as long
as everything so far can vanish. -/
def scanString (g : Grammar) : List Symbol → Memo → SymbolSet × Memo
  | [], memo => (.singleton epsilon, memo)
  | x :: rest, memo =>
    let head := g.first x memo
    if epsilon ∈ head.1 then
      let tail := g.scanString rest head.2
      (head.1.erase epsilon ∪ tail.1, tail.2)
    else head

/-- FIRST of a symbol string; an answer once given is kept. -/
def firstOfString (g : Grammar) (xs : List Symbol) (memo : Memo) : SymbolSet × Memo :=
  match memo.strings.lookup xs with
  | some set => (set, memo)
  | none =>
    let found := g.scanString xs memo
    (found.1, found.2.keepString xs found.1)

/-- What is known before the first query. -/
def openMemo (g : Grammar) : FirstStrategy → Memo
  | .guarded => .blank
  | .fixedPoint => ⟨g.solveFirst, []⟩

end Grammar

end CanonicalLR

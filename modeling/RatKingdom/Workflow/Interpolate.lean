/-
The placeholders of workflow texts.

`interpolate` replaces one placeholder after another, the variables in the order of a hash
map.  What is put in for one placeholder is searched for the next, so a value that spells a
placeholder is replaced in its turn, or not, as the order has it.  The replacements are one
substitution exactly where no placeholder begins, at its turn, but in the text itself.
-/
import RatKingdom.Core.Text
import RatKingdom.Lib.First
import RatKingdom.Lib.Template

namespace RatKingdom.Workflow
namespace Interpolate

open Core Lib List

/-- What a text may name of a `WorkflowContext`; the variables come in the order the hash
map is iterated in. -/
structure WorkflowContext where
  activeAgent : Option String := none
  activeBranch : Option String := none
  previousResult : Option Core.Value := none
  vars : List (String × Core.Value) := []
  distinct : (vars.map Prod.fst).Nodup := by simp

structure TicketItem where
  id : String
  title : String
  body : String

def valueAsKey : Core.Value → String
  | .string s => s
  | .null => ""
  | other => other.toText

inductive Placeholder where
  | activeAgent | activeBranch | previousResult
  | var (name : String)
  | itemId | itemTitle | itemBody
  deriving DecidableEq

namespace Placeholder

def name : Placeholder → List Char
  | activeAgent => "ctx.activeAgent".toList
  | activeBranch => "ctx.activeBranch".toList
  | previousResult => "ctx.previousResult".toList
  | var name => "ctx.var.".toList ++ name.toList
  | itemId => "item.id".toList
  | itemTitle => "item.title".toList
  | itemBody => "item.body".toList

def key (k : Placeholder) : List Char := braced k.name

end Placeholder

open Placeholder (key)

namespace WorkflowContext

variable (ctx : WorkflowContext)

/-- The result itself, if it has one as text, and else the JSON around it. -/
def previous : String := (ctx.previousResult.map fun v => (v.getStr "result").getD v.toText).getD ""

end WorkflowContext

def interpolate (text : List Char) (ctx : WorkflowContext) : List Char :=
  let out := replaceAll (key .activeAgent) (ctx.activeAgent.getD "").toList text
  let out := replaceAll (key .activeBranch) (ctx.activeBranch.getD "").toList out
  let out := replaceAll (key .previousResult) ctx.previous.toList out
  ctx.vars.foldl (fun out v => replaceAll (key (.var v.1)) (valueAsKey v.2).toList out) out

def interpolateItem (text : List Char) (item : TicketItem) (ctx : WorkflowContext) : List Char :=
  let out := interpolate text ctx
  let out := replaceAll (key .itemId) item.id.toList out
  let out := replaceAll (key .itemTitle) item.title.toList out
  replaceAll (key .itemBody) item.body.toList out

namespace WorkflowContext

variable (ctx : WorkflowContext)

def placeholders : List Placeholder :=
  [.activeAgent, .activeBranch, .previousResult] ++ ctx.vars.map fun v => .var v.1

def itemPlaceholders : List Placeholder := ctx.placeholders ++ [.itemId, .itemTitle, .itemBody]

def value (item : TicketItem) : Placeholder → List Char
  | .activeAgent => (ctx.activeAgent.getD "").toList
  | .activeBranch => (ctx.activeBranch.getD "").toList
  | .previousResult => ctx.previous.toList
  | .var name => (((ctx.vars.find? fun v => v.1 = name).map fun v => valueAsKey v.2).getD "").toList
  | .itemId => item.id.toList
  | .itemTitle => item.title.toList
  | .itemBody => item.body.toList

/-- The same context, its hash map iterated in another order. -/
structure Reorders (ctx' : WorkflowContext) : Prop where
  activeAgent : ctx'.activeAgent = ctx.activeAgent
  activeBranch : ctx'.activeBranch = ctx.activeBranch
  previousResult : ctx'.previousResult = ctx.previousResult
  vars : ctx'.vars.Perm ctx.vars

end WorkflowContext

/-- What the replacements put in, in the order they are made. -/
def turns (σ : Placeholder → List Char) (order : List Placeholder) :
    List (Placeholder × List (Piece Placeholder)) := order.map fun k => (k, (σ k).map .char)

/-- A text with placeholders, and the replacements that are made in it one after another:
each finds the placeholders of the text itself, and no text a value has put in. -/
def FindsOwn (σ : Placeholder → List Char) (order ks : List Placeholder) (text : List Char) : Prop :=
  Finds key (fun _ ps => ps) (turns σ order) (scan key ks text) text

/-- In every order of the variables, the placeholders of the text itself are replaced, and
nothing else. -/
structure OneSubstitution (text : List Char) (item : TicketItem) (ctx : WorkflowContext) :
    Prop where
  plain : ∀ ctx', ctx.Reorders ctx' →
    interpolate text ctx' = fill (ctx.value item) (scan key ctx.placeholders text) ∧
      FindsOwn (ctx.value item) ctx'.placeholders ctx.placeholders text
  item : ∀ ctx', ctx.Reorders ctx' →
    interpolateItem text item ctx' = fill (ctx.value item) (scan key ctx.itemPlaceholders text) ∧
      FindsOwn (ctx.value item) ctx'.itemPlaceholders ctx.itemPlaceholders text

/-- In the text with the placeholders of the earlier turns filled in, a placeholder begins
only where the text has it. -/
abbrev Settled (σ : Placeholder → List Char) (order ks : List Placeholder) (text : List Char) : Prop :=
  InTurn key (fun _ ps => ps) (turns σ order) (scan key ks text)

section
variable {text : List Char} {item : TicketItem} {ctx ctx' : WorkflowContext}

theorem key_ne_nil (k : Placeholder) : key k ≠ [] := cons_ne_nil _ _

theorem findsOwn_iff {σ : Placeholder → List Char} {order ks : List Placeholder} :
    FindsOwn σ order ks text ↔ Settled σ order ks text := by
  have hfinds : Finds _ _ _ _ (fill key (scan key ks text)) ↔ Settled σ order ks text :=
    finds_iff fun t _ => ⟨key_ne_nil t.1, fun _ => rfl⟩
  rwa [fill_scan fun k _ => key_ne_nil k] at hfinds

theorem value_var (item : TicketItem) {v : String × Core.Value} (hv : v ∈ ctx.vars) :
    ctx.value item (.var v.1) = (valueAsKey v.2).toList := by
  have hfind : (ctx.vars.find? fun w => w.1 = v.1) = some v := find?_key ctx.distinct hv rfl
  show (((ctx.vars.find? fun w => w.1 = v.1).map fun w => valueAsKey w.2).getD "").toList = _
  rw [hfind]
  rfl

theorem interpolate_eq (item : TicketItem) (h : ctx.Reorders ctx') :
    interpolate text ctx' =
      ctx'.placeholders.foldl (fun out k => replaceAll k.key (ctx.value item k) out) text := by
  unfold interpolate WorkflowContext.placeholders WorkflowContext.previous
  rw [h.activeAgent, h.activeBranch, h.previousResult, foldl_append, foldl_map]
  refine foldl_ext _ _ _ fun out v hv => ?_
  rw [value_var item (h.vars.mem_iff.mp hv)]

theorem interpolateItem_eq (h : ctx.Reorders ctx') :
    interpolateItem text item ctx' =
      ctx'.itemPlaceholders.foldl (fun out k => replaceAll k.key (ctx.value item k) out) text := by
  unfold interpolateItem WorkflowContext.itemPlaceholders
  rw [interpolate_eq item h, foldl_append]
  rfl

theorem mem_placeholders (h : ctx.Reorders ctx') {k : Placeholder} :
    k ∈ ctx'.placeholders ↔ k ∈ ctx.placeholders := by
  have hvars := (h.vars.map fun v => .var v.1).mem_iff (a := k)
  simp only [WorkflowContext.placeholders, mem_append, hvars]

/-- The replacements are one substitution exactly if, in every order of the variables, no
placeholder begins at its turn but where the text has it. -/
theorem one_substitution_iff :
    OneSubstitution text item ctx ↔ ∀ ctx', ctx.Reorders ctx' →
      Settled (ctx.value item) ctx'.placeholders ctx.placeholders text ∧
        Settled (ctx.value item) ctx'.itemPlaceholders ctx.itemPlaceholders text := by
  constructor
  · intro h ctx' hctx
    exact ⟨findsOwn_iff.mp (h.plain ctx' hctx).2, findsOwn_iff.mp (h.item ctx' hctx).2⟩
  · intro h
    refine ⟨fun ctx' hctx => ⟨?_, findsOwn_iff.mpr (h ctx' hctx).1⟩,
      fun ctx' hctx => ⟨?_, findsOwn_iff.mpr (h ctx' hctx).2⟩⟩
    · rw [interpolate_eq item hctx]
      exact foldl_replaceAll key_ne_nil (fun k hk => (mem_placeholders hctx).mpr hk) (h ctx' hctx).1
    · rw [interpolateItem_eq hctx]
      refine foldl_replaceAll key_ne_nil (fun k hk => ?_) (h ctx' hctx).2
      simpa only [WorkflowContext.itemPlaceholders, mem_append, mem_placeholders hctx] using hk

end

def noItem : TicketItem := { id := "", title := "", body := "" }

/-- The body comes last, so that nothing in it is replaced. -/
example : Settled (({} : WorkflowContext).value { noItem with body := "{{item.id}}" })
    ({} : WorkflowContext).itemPlaceholders ({} : WorkflowContext).itemPlaceholders
    "{{item.body}}".toList := by decide

theorem agent_names_placeholder :
    ¬ OneSubstitution "{{ctx.activeAgent}}".toList noItem
      { activeAgent := some "{{ctx.activeBranch}}", activeBranch := some "main" } := by
  intro h
  exact absurd (h.plain _ ⟨rfl, rfl, rfl, .refl _⟩).1 (by decide)

end Interpolate
end RatKingdom.Workflow

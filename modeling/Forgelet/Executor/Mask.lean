import Forgelet.Lib.Bytes
import Forgelet.Lib.Replace

/-!
# Masking

`internal/runtime/executor/mask/mask.go`: the registered secret values, their replacement in a text, and the log
handler that masks what it passes on. The time, the level and the program counter of a record are left out.
-/

namespace Forgelet.Executor

open Bytes (ofString)

/-- `Masker`, the registered secret values. -/
structure Masker where
  vals : List Bytes
  nonempty : [] ∉ vals
  nodup : vals.Nodup
deriving DecidableEq

namespace Masker

/-- A masker without values. -/
def new : Masker where
  vals := []
  nonempty := List.not_mem_nil
  nodup := List.nodup_nil

/-- `Add` registers a value, unless it is empty or registered. -/
def add (m : Masker) (v : Bytes) : Masker :=
  if hempty : v = [] then m
  else if hthere : v ∈ m.vals then m
  else
    { vals := m.vals ++ [v]
      nonempty := by
        rw [List.mem_append, List.mem_singleton, not_or]
        exact ⟨m.nonempty, Ne.symm hempty⟩
      nodup := by
        rw [List.nodup_append_comm, List.singleton_append, List.nodup_cons]
        exact ⟨hthere, m.nodup⟩ }

/-- What stands for a value. -/
def marker : Bytes := ofString "***"

/-- The longest values first, and those of one length in the order of registration. -/
def sorted (m : Masker) : List Bytes := m.vals.insertionSort fun v w => w.length ≤ v.length

/-- `Apply` replaces every registered value. -/
def apply (m : Masker) (s : Bytes) : Bytes :=
  m.sorted.foldl (fun s v => if v ≠ [] then Replace.replaceAll v marker s else s) s

end Masker

/-! ## The log handler -/

/-- A value of package `slog`: a string, a group of attributes, or another one. -/
inductive LogValue
  | string (s : Bytes)
  | group (attrs : List (Bytes × LogValue))
  | other (n : Int)

/-- `slog.Attr`. -/
abbrev LogAttr := Bytes × LogValue

/-- `slog.Record`. -/
structure LogRecord where
  message : Bytes
  attrs : List LogAttr

/-- What a handler was derived with. -/
inductive Binding
  | attrs (attrs : List LogAttr)
  | group (name : Bytes)

/-- `Handler`: what the inner handler was derived with. The masker is an argument of `handle`. -/
structure Handler where
  inner : List Binding

/-- What the innermost handler has when it handles a record. -/
structure Received where
  bound : List Binding
  record : LogRecord

namespace Handler

/-- `NewHandler` around a handler that was not derived. -/
def new : Handler where
  inner := []

/-- `WithAttrs`: bound for the inner handler as they are. -/
def withAttrs (h : Handler) (attrs : List LogAttr) : Handler where
  inner := h.inner ++ [.attrs attrs]

/-- `WithGroup`. -/
def withGroup (h : Handler) (name : Bytes) : Handler where
  inner := h.inner ++ [.group name]

/-- Only a string is masked, and no group is entered. -/
def maskAttr (m : Masker) : LogAttr → LogAttr
  | (key, .string s) => (key, .string (m.apply s))
  | a => a

/-- Such an attribute is not handed on. -/
def isEmptyGroup : LogAttr → Bool
  | (_, .group []) => true
  | _ => false

/-- `Handle`. `AddAttrs` omits empty groups. -/
def handle (h : Handler) (m : Masker) (r : LogRecord) : Received where
  bound := h.inner
  record :=
    { message := m.apply r.message
      attrs := (r.attrs.map (maskAttr m)).filter fun a => !isEmptyGroup a }

/-- The handler with one more binding. -/
def derive (h : Handler) : Binding → Handler
  | .attrs attrs => h.withAttrs attrs
  | .group name => h.withGroup name

end Handler

end Forgelet.Executor

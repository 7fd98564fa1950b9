import Mathlib.Data.List.Basic

/-! Texts in which a delimiter ends each item, and their reading; messages taken one after
another off the front of a stream that grows at its end. -/
namespace Call45Aggr.Library

section
variable {α : Type} [DecidableEq α] {stop : α}

def terminated (stop : α) (items : List (List α)) : List α := items.flatMap fun item => item ++ [stop]

def readTerminated (stop : α) (text : List α) : List (List α) := (text.splitOn stop).dropLast

theorem splitOn_terminated {items : List (List α)} (absent : ∀ item ∈ items, stop ∉ item) :
    (terminated stop items).splitOn stop = items ++ [[]] := by
  induction items with
  | nil => exact List.splitOn_nil stop
  | cons item rest ih =>
    obtain ⟨first,others⟩ := List.forall_mem_cons.mp absent
    have shape : terminated stop (item :: rest) = item ++ stop :: terminated stop rest := by
      simp [terminated]
    rw [shape,List.splitOn_append_cons_self_of_not_mem first,ih others]
    rfl

theorem readTerminated_terminated {items : List (List α)} (absent : ∀ item ∈ items, stop ∉ item) :
    readTerminated stop (terminated stop items) = items := by
  rw [readTerminated,splitOn_terminated absent,List.dropLast_concat]

/-- The text before the first `stop`, and what begins with that `stop`. -/
def field (stop : α) (text : List α) : List α × List α :=
  (text.takeWhile (· ≠ stop),text.dropWhile (· ≠ stop))

theorem field_read {text : List α} (absent : stop ∉ text) (rest : List α) :
    field stop (text ++ stop :: rest) = (text,stop :: rest) := by
  have inside : ∀ c ∈ text, decide (c ≠ stop) = true := by
    intro c member
    exact decide_eq_true fun same => absent (same ▸ member)
  rw [field,List.takeWhile_append_of_pos inside,List.dropWhile_append_of_pos inside]
  simp

end

section
variable {β μ : Type} {parse : List β → Option (μ × List β)}

/-- `messages` are the first ones of the stream, and the last component is what follows them. -/
inductive Framed (parse : List β → Option (μ × List β)) : List β → List μ → List β → Prop
  | nil (stream : List β) : Framed parse stream [] stream
  | cons {stream middle rest : List β} {message : μ} {messages : List μ}
      (parsed : parse stream = some (message,middle)) (later : Framed parse middle messages rest) :
      Framed parse stream (message :: messages) rest

/-- A whole message stays the same when more of the stream arrives behind it. -/
def Extends (parse : List β → Option (μ × List β)) : Prop :=
  ∀ stream more message rest, parse stream = some (message,rest) →
    parse (stream ++ more) = some (message,rest ++ more)

theorem Framed.concat {stream middle rest : List β} {messages : List μ} {message : μ}
    (framed : Framed parse stream messages middle) (parsed : parse middle = some (message,rest)) :
    Framed parse stream (messages ++ [message]) rest := by
  induction framed with
  | nil stream => exact .cons parsed (.nil rest)
  | cons first _ ih => exact .cons first (ih parsed)

theorem Framed.append (ext : Extends parse) {stream rest : List β} {messages : List μ}
    (framed : Framed parse stream messages rest) (more : List β) :
    Framed parse (stream ++ more) messages (rest ++ more) := by
  induction framed with
  | nil stream => exact .nil (stream ++ more)
  | cons parsed _ ih => exact .cons (ext _ more _ _ parsed) ih

end
end Call45Aggr.Library

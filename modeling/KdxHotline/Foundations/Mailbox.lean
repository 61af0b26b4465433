import Mathlib.Data.List.Infix

/-!
# Actors behind a mailbox

An actor owns its state alone; everybody else sends it commands, which it handles one
at a time in the order they were sent, answering each. `Foundations.Mailbox` keeps
all commands that were ever sent and the answers to those that were handled, so an
answer is found by the place of its command: whoever sent a command waits for the
answer of that place.

Sending and handling only ever append (`Foundations.Mailbox.Extends`). What was
handled, and with which answer (`Foundations.Mailbox.Handled`), is therefore never
unsaid, and `Foundations.Mailbox.handled_receive` is all that handling one command
adds.
-/

namespace Foundations

variable {σ κ ρ : Type}

/-- An actor with state `σ` that handles commands `κ` with answers `ρ`. -/
structure Mailbox (σ κ ρ : Type) where
  state : σ
  /-- Every command that was sent, oldest first. -/
  inbox : List κ
  /-- The answers to the commands that were handled, in their order. -/
  answers : List ρ
  answered : answers.length ≤ inbox.length
  deriving DecidableEq

namespace Mailbox

variable {m m' m'' : Mailbox σ κ ρ} {handle : σ → κ → ρ × σ} {c d : κ} {r : ρ} {k : ℕ}

/-- An actor that nothing was sent to. -/
def spawn (s : σ) : Mailbox σ κ ρ := ⟨s, [], [], le_rfl⟩

/-- Put a command into the box. -/
def send (m : Mailbox σ κ ρ) (c : κ) : Mailbox σ κ ρ where
  state := m.state
  inbox := m.inbox ++ [c]
  answers := m.answers
  answered := by
    rw [List.length_append]
    exact Nat.le_add_right_of_le m.answered

/-- Handle the next command, if one is waiting. -/
def receive (handle : σ → κ → ρ × σ) (m : Mailbox σ κ ρ) : Mailbox σ κ ρ :=
  if h : m.answers.length < m.inbox.length then
    { state := (handle m.state (m.inbox.get ⟨_, h⟩)).2
      inbox := m.inbox
      answers := m.answers ++ [(handle m.state (m.inbox.get ⟨_, h⟩)).1]
      answered := by
        rw [List.length_append, List.length_singleton]
        exact h }
  else m

/-- How many commands are waiting. -/
def waiting (m : Mailbox σ κ ρ) : ℕ := m.inbox.length - m.answers.length

/-- The command at a place was handled, with this answer. -/
def Handled (m : Mailbox σ κ ρ) (k : ℕ) (c : κ) (r : ρ) : Prop :=
  m.inbox[k]? = some c ∧ m.answers[k]? = some r

/-- Commands were sent and handled since. -/
structure Extends (m m' : Mailbox σ κ ρ) : Prop where
  inbox : m.inbox <+: m'.inbox
  answers : m.answers <+: m'.answers

theorem Extends.refl (m : Mailbox σ κ ρ) : Extends m m :=
  ⟨List.prefix_rfl, List.prefix_rfl⟩

/-- A place that a prefix has is the same in the whole. -/
theorem getElem?_mono {α : Type} {l l' : List α} {a : α} (h : l <+: l') (hk : l[k]? = some a) :
    l'[k]? = some a := by
  obtain ⟨hlt, hget⟩ := List.getElem?_eq_some_iff.mp hk
  rw [List.prefix_iff_getElem?.mp h k hlt, hget]

/-- A place of a list with one more at its end is an old one, or that one. -/
theorem getElem?_concat {α : Type} {l : List α} {x a : α} (h : (l ++ [x])[k]? = some a) :
    l[k]? = some a ∨ (k = l.length ∧ a = x) := by
  rcases lt_trichotomy k l.length with hlt | rfl | hgt
  · rw [List.getElem?_append_left hlt] at h
    exact .inl h
  · rw [List.getElem?_append_right le_rfl, Nat.sub_self] at h
    exact .inr ⟨rfl, (Option.some.inj h).symm⟩
  · have hlt := (List.getElem?_eq_some_iff.mp h).1
    rw [List.length_append, List.length_singleton] at hlt
    omega

theorem Handled.extends (h : m.Handled k c r) (hext : Extends m m') : m'.Handled k c r :=
  ⟨getElem?_mono hext.inbox h.1, getElem?_mono hext.answers h.2⟩

theorem Handled.lt (h : m.Handled k c r) : k < m.answers.length :=
  (List.getElem?_eq_some_iff.mp h.2).1

/-! ### Sending -/

theorem extends_send : Extends m (m.send c) := ⟨List.prefix_append _ _, List.prefix_rfl⟩

/-- A command is sent to the place after all others. -/
theorem inbox_send : (m.send c).inbox[m.inbox.length]? = some c := by
  rw [send, List.getElem?_append_right le_rfl, Nat.sub_self]
  rfl

/-- **Sending handles nothing.** -/
theorem handled_send : (m.send d).Handled k c r ↔ m.Handled k c r := by
  refine and_congr_left fun hr => ?_
  have hlt : k < m.answers.length := (List.getElem?_eq_some_iff.mp hr).1
  rw [send, List.getElem?_append_left (hlt.trans_le m.answered)]

/-! ### Handling -/

/-- The next command. -/
def next (m : Mailbox σ κ ρ) : Option κ := m.inbox[m.answers.length]?

theorem receive_of_none (h : m.next = none) : m.receive handle = m :=
  dif_neg (not_lt.mpr (List.getElem?_eq_none_iff.mp h))

/-- The state after handling the next command. -/
theorem state_receive (h : m.next = some c) : (m.receive handle).state = (handle m.state c).2 := by
  obtain ⟨hlt, hget⟩ := List.getElem?_eq_some_iff.mp h
  rw [receive, dif_pos hlt]
  exact congrArg (fun c => (handle m.state c).2) hget

theorem answers_receive (h : m.next = some c) :
    (m.receive handle).answers = m.answers ++ [(handle m.state c).1] := by
  obtain ⟨hlt, hget⟩ := List.getElem?_eq_some_iff.mp h
  rw [receive, dif_pos hlt]
  exact congrArg (fun c => m.answers ++ [(handle m.state c).1]) hget

@[simp] theorem inbox_receive : (m.receive handle).inbox = m.inbox := by
  unfold receive
  split <;> rfl

theorem extends_receive : Extends m (m.receive handle) := by
  refine ⟨by rw [inbox_receive], ?_⟩
  cases h : m.next with
  | none => rw [receive_of_none h]
  | some c =>
    rw [answers_receive h]
    exact List.prefix_append _ _

/-- **Handling one command adds it, with its answer, to what was handled.** -/
theorem handled_receive (hd : m.next = some d) : (m.receive handle).Handled k c r ↔
    m.Handled k c r ∨ (k = m.answers.length ∧ c = d ∧ r = (handle m.state d).1) := by
  rw [Handled, inbox_receive, answers_receive hd, Handled]
  rcases lt_trichotomy k m.answers.length with hlt | rfl | hgt
  · rw [List.getElem?_append_left hlt]
    exact (or_iff_left fun h => hlt.ne h.1).symm
  · have hold : m.answers[m.answers.length]? = none := List.getElem?_eq_none le_rfl
    have hinbox : m.inbox[m.answers.length]? = some d := hd
    rw [List.getElem?_append_right le_rfl, hold, hinbox, Nat.sub_self]
    simp [eq_comm]
  · have hold : m.answers[k]? = none := List.getElem?_eq_none hgt.le
    have hnew : (m.answers ++ [(handle m.state d).1])[k]? = none := by
      refine List.getElem?_eq_none ?_
      rw [List.length_append, List.length_singleton]
      exact hgt
    rw [hold, hnew]
    simp [hgt.ne']

end Mailbox

end Foundations

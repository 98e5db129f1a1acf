import FtIrc.Client
import Mathlib.Data.List.Nodup

/-!
# Channels

The `Channel` class. Its three lists hold addresses of `Client` objects. They are updated
independently of each other; `Channel.Wf` is what the commands keep true of them together.
-/

namespace FtIrc

/-- A `Channel` object. -/
structure Channel where
  name : Str
  topic : Str := []
  members : List Ptr := []
  operators : List Ptr := []
  inviteOnly : Bool := false
  topicRestricted : Bool := false
  password : Str := []
  userLimit : ℕ := 0
  invitedClients : List Ptr := []
deriving DecidableEq, Repr

namespace Channel

/-- `isMember`. -/
def isMember (ch : Channel) (client : Ptr) : Bool := decide (client ∈ ch.members)

/-- `isOperator`. -/
def isOperator (ch : Channel) (client : Ptr) : Bool := decide (client ∈ ch.operators)

/-- `isInvited`. -/
def isInvited (ch : Channel) (client : Ptr) : Bool := decide (client ∈ ch.invitedClients)

/-- `addMember`. -/
def addMember (ch : Channel) (client : Ptr) : Channel :=
  if !ch.isMember client then { ch with members := ch.members ++ [client] } else ch

/-- `removeOperator`: the first occurrence goes. -/
def removeOperator (ch : Channel) (client : Ptr) : Channel :=
  { ch with operators := ch.operators.erase client }

/-- `removeMember`. -/
def removeMember (ch : Channel) (client : Ptr) : Channel :=
  let ch := { ch with members := ch.members.erase client }
  if ch.isOperator client then ch.removeOperator client else ch

/-- `addOperator`. -/
def addOperator (ch : Channel) (client : Ptr) : Channel :=
  if !ch.isOperator client then { ch with operators := ch.operators ++ [client] } else ch

/-- `addInvited`. -/
def addInvited (ch : Channel) (client : Ptr) : Channel :=
  if !ch.isInvited client then { ch with invitedClients := ch.invitedClients ++ [client] } else ch

/-- `removeInvited`: the first occurrence goes. -/
def removeInvited (ch : Channel) (client : Ptr) : Channel :=
  { ch with invitedClients := ch.invitedClients.erase client }

/-- `getMembersCount`. -/
def getMembersCount (ch : Channel) : ℕ := ch.members.length

/-! ## The lists after an operation -/

section Lists

variable (ch : Channel) (p q : Ptr)

@[simp] theorem isMember_iff : ch.isMember p = true ↔ p ∈ ch.members := decide_eq_true_iff

@[simp] theorem isOperator_iff : ch.isOperator p = true ↔ p ∈ ch.operators := decide_eq_true_iff

@[simp] theorem isInvited_iff : ch.isInvited p = true ↔ p ∈ ch.invitedClients := decide_eq_true_iff

@[simp] theorem isMember_eq_false : ch.isMember p = false ↔ p ∉ ch.members :=
  decide_eq_false_iff_not

@[simp] theorem isOperator_eq_false : ch.isOperator p = false ↔ p ∉ ch.operators :=
  decide_eq_false_iff_not

@[simp] theorem isInvited_eq_false : ch.isInvited p = false ↔ p ∉ ch.invitedClients :=
  decide_eq_false_iff_not

theorem addMember_of_not_mem {p : Ptr} (h : p ∉ ch.members) :
    ch.addMember p = { ch with members := ch.members ++ [p] } := by
  simp [addMember, isMember, h]

theorem addOperator_of_not_mem {p : Ptr} (h : p ∉ ch.operators) :
    ch.addOperator p = { ch with operators := ch.operators ++ [p] } := by
  simp [addOperator, isOperator, h]

theorem addOperator_of_mem {p : Ptr} (h : p ∈ ch.operators) : ch.addOperator p = ch := by
  simp [addOperator, isOperator, h]

theorem addInvited_of_not_mem {p : Ptr} (h : p ∉ ch.invitedClients) :
    ch.addInvited p = { ch with invitedClients := ch.invitedClients ++ [p] } := by
  simp [addInvited, isInvited, h]

theorem addInvited_of_mem {p : Ptr} (h : p ∈ ch.invitedClients) : ch.addInvited p = ch := by
  simp [addInvited, isInvited, h]

/-- `removeMember` erases the client from the members and from the operators. -/
theorem removeMember_eq :
    ch.removeMember p
      = { ch with members := ch.members.erase p, operators := ch.operators.erase p } := by
  unfold removeMember
  dsimp only
  split_ifs with h
  · rfl
  · have hop : p ∉ ch.operators := fun hp => h ((isOperator_iff _ _).mpr hp)
    rw [List.erase_of_not_mem hop]

theorem name_removeMember : (ch.removeMember p).name = ch.name := by
  rw [removeMember_eq]

theorem name_addMember : (ch.addMember p).name = ch.name := by
  unfold addMember
  split_ifs <;> rfl

theorem name_addOperator : (ch.addOperator p).name = ch.name := by
  unfold addOperator
  split_ifs <;> rfl

theorem name_addInvited : (ch.addInvited p).name = ch.name := by
  unfold addInvited
  split_ifs <;> rfl

/-- The other members stay. -/
theorem mem_removeMember_of_ne {p q : Ptr} (hne : q ≠ p) :
    q ∈ (ch.removeMember p).members ↔ q ∈ ch.members := by
  rw [removeMember_eq]
  exact List.mem_erase_of_ne hne

end Lists

/-! ## Well-formed channels -/

/-- The lists of a channel fit together. -/
structure Wf (ch : Channel) : Prop where
  nodup_members : ch.members.Nodup
  nodup_operators : ch.operators.Nodup
  nodup_invited : ch.invitedClients.Nodup
  operators_sub : ∀ p ∈ ch.operators, p ∈ ch.members
  invited_disjoint : ∀ p ∈ ch.invitedClients, p ∉ ch.members

namespace Wf

variable {ch : Channel} {p : Ptr}

theorem removeMember (h : ch.Wf) (p : Ptr) : (ch.removeMember p).Wf := by
  rw [removeMember_eq]
  refine ⟨h.nodup_members.erase p, h.nodup_operators.erase p, h.nodup_invited, ?_, ?_⟩
  · intro q hq
    rw [h.nodup_operators.mem_erase_iff] at hq
    exact h.nodup_members.mem_erase_iff.mpr ⟨hq.1, h.operators_sub q hq.2⟩
  · intro q hq hmem
    exact h.invited_disjoint q hq (List.mem_of_mem_erase hmem)

theorem mem_removeMember (h : ch.Wf) {p q : Ptr} :
    q ∈ (ch.removeMember p).members ↔ q ≠ p ∧ q ∈ ch.members := by
  rw [removeMember_eq]
  exact h.nodup_members.mem_erase_iff

theorem not_mem_removeMember (h : ch.Wf) (p : Ptr) : p ∉ (ch.removeMember p).members := by
  rw [removeMember_eq]
  exact h.nodup_members.not_mem_erase

theorem removeInvited (h : ch.Wf) (p : Ptr) : (ch.removeInvited p).Wf :=
  ⟨h.nodup_members, h.nodup_operators, h.nodup_invited.erase p, h.operators_sub,
    fun q hq => h.invited_disjoint q (List.mem_of_mem_erase hq)⟩

theorem removeOperator (h : ch.Wf) (p : Ptr) : (ch.removeOperator p).Wf :=
  ⟨h.nodup_members, h.nodup_operators.erase p, h.nodup_invited,
    fun q hq => h.operators_sub q (List.mem_of_mem_erase hq), h.invited_disjoint⟩

/-- A member may become an operator. -/
theorem addOperator (h : ch.Wf) (hp : p ∈ ch.members) : (ch.addOperator p).Wf := by
  by_cases hop : p ∈ ch.operators
  · rw [addOperator_of_mem ch hop]
    exact h
  · rw [addOperator_of_not_mem ch hop]
    refine ⟨h.nodup_members, ?_, h.nodup_invited, ?_, h.invited_disjoint⟩
    · exact List.nodup_append_comm.mpr (List.nodup_cons.mpr ⟨hop, h.nodup_operators⟩)
    · intro q hq
      rcases List.mem_append.mp hq with hq | hq
      · exact h.operators_sub q hq
      · rw [List.mem_singleton.mp hq]
        exact hp

/-- A client that is not a member may be invited. -/
theorem addInvited (h : ch.Wf) (hp : p ∉ ch.members) : (ch.addInvited p).Wf := by
  by_cases hin : p ∈ ch.invitedClients
  · rw [addInvited_of_mem ch hin]
    exact h
  · rw [addInvited_of_not_mem ch hin]
    refine ⟨h.nodup_members, h.nodup_operators, ?_, h.operators_sub, ?_⟩
    · exact List.nodup_append_comm.mpr (List.nodup_cons.mpr ⟨hin, h.nodup_invited⟩)
    · intro q hq
      rcases List.mem_append.mp hq with hq | hq
      · exact h.invited_disjoint q hq
      · rw [List.mem_singleton.mp hq]
        exact hp

/-- A client that becomes a member uses its invitation up. -/
theorem enter (h : ch.Wf) (hp : p ∉ ch.members) : ((ch.addMember p).removeInvited p).Wf := by
  rw [addMember_of_not_mem ch hp]
  refine ⟨?_, h.nodup_operators, h.nodup_invited.erase p, ?_, ?_⟩
  · exact List.nodup_append_comm.mpr (List.nodup_cons.mpr ⟨hp, h.nodup_members⟩)
  · intro q hq
    exact List.mem_append_left _ (h.operators_sub q hq)
  · intro q hq hmem
    obtain ⟨hne, hq⟩ := h.nodup_invited.mem_erase_iff.mp hq
    rcases List.mem_append.mp hmem with hmem | hmem
    · exact h.invited_disjoint q hq hmem
    · exact hne (List.mem_singleton.mp hmem)

end Wf

/-- The channel a JOIN creates for its first member. -/
def founded (name : Str) (p : Ptr) : Channel :=
  { name, topicRestricted := true, members := [p], operators := [p] }

theorem wf_founded (name : Str) (p : Ptr) : (founded name p).Wf :=
  ⟨List.nodup_singleton p, List.nodup_singleton p, List.nodup_nil, fun _ h => h,
    fun _ h => absurd h List.not_mem_nil⟩

end Channel

end FtIrc

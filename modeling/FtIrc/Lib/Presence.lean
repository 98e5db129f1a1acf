import Mathlib.Data.Finset.Image
import Mathlib.Logic.Function.Basic
import Mathlib.Tactic.SplitIfs

/-!
# Who is in which room

Participants with names meet in rooms, and each of them is told what happens in the rooms it is in.
`World` is the state of affairs, `View` is what one participant has made of the notices it has got,
and `World.view` is what it should have made of them. An `Act` changes the world and tells some of
the participants; as long as no two of them have one name, whoever hears its notices sees the rooms
it is in as they are (`Sound.view_run`).

What participants say is passed on to the others in the room, and changes nothing. All who stay in a
room hear the same conversation, in the same order, each without what it has said itself
(`heard_transcript`).

Participants, names, rooms and texts are of arbitrary types.
-/

namespace Presence

/-! ## Worlds, views and notices -/

/-- What can be seen of a room from the inside. -/
@[ext] structure Room (N T : Type*) where
  names : Finset N
  operators : Finset N
  topic : T

/-- Who is there, under which name, and in which rooms. -/
@[ext] structure World (P N R T : Type*) where
  present : Set P
  name : P → N
  inside : R → Finset P
  operators : R → Finset P
  topic : R → T

/-- What a participant knows: its own name, and the rooms it is in. -/
@[ext] structure View (N R T : Type*) where
  own : N
  rooms : R → Option (Room N T)

/-- What a participant is told. -/
inductive Notice (N R T : Type*) where
  | welcome (n : N)
  | joined (n : N) (r : R)
  | names (r : R) (members operators : Finset N)
  | topic (r : R) (t : T)
  | left (n : N) (r : R)
  | quit (n : N)
  | renamed (old new : N)
  | operator (on : Bool) (n : N) (r : R)
  | said (n : N) (r : R) (t : T)
  | whispered (n : N) (t : T)

section Hearing

variable {N R T : Type*}

namespace View

/-- A participant that has heard nothing. -/
def start [Inhabited N] : View N R T := ⟨default, fun _ => none⟩

variable [DecidableEq R]

/-- Put what is known of a room in place of what was. -/
def put (v : View N R T) (r : R) (room : Option (Room N T)) : View N R T :=
  { v with rooms := Function.update v.rooms r room }

/-- Change what is known of a room. -/
def alter (v : View N R T) (r : R) (f : Room N T → Room N T) : View N R T :=
  v.put r ((v.rooms r).map f)

@[simp] theorem own_put (v : View N R T) (r : R) (room : Option (Room N T)) :
    (v.put r room).own = v.own := rfl

@[simp] theorem put_put (v : View N R T) (r : R) (room room' : Option (Room N T)) :
    (v.put r room).put r room' = v.put r room' := by
  rw [put, put, put, Function.update_idem]

@[simp] theorem alter_put (v : View N R T) (r : R) (room : Room N T) (f : Room N T → Room N T) :
    (v.put r (some room)).alter r f = v.put r (some (f room)) := by
  have hroom : (v.put r (some room)).rooms r = some room := Function.update_self ..
  rw [alter, hroom, put_put]
  rfl

end View

variable [DecidableEq N]

namespace Room

/-- The room without somebody. -/
def without (room : Room N T) (n : N) : Room N T :=
  { room with names := room.names.erase n, operators := room.operators.erase n }

/-- The room after somebody has another name. -/
def rename (room : Room N T) (old new : N) : Room N T :=
  { room with
    names := room.names.image fun n => if n = old then new else n
    operators := room.operators.image fun n => if n = old then new else n }

/-- The room after somebody has become an operator, or is none any more. -/
def regrade (room : Room N T) (on : Bool) (n : N) : Room N T :=
  { room with operators := if on then insert n room.operators else room.operators.erase n }

end Room

namespace View

variable [DecidableEq R] [Inhabited T]

/-- What a participant makes of a notice. -/
def hear (v : View N R T) : Notice N R T → View N R T
  | .welcome n => { v with own := n }
  | .joined n r =>
    if n = v.own then v.put r (some ⟨{n}, ∅, default⟩)
    else v.alter r fun room => { room with names := insert n room.names }
  | .names r members operators =>
    v.alter r fun room =>
      { room with names := room.names ∪ members, operators := room.operators ∪ operators }
  | .topic r t => v.alter r fun room => { room with topic := t }
  | .left n r =>
    if n = v.own then v.put r none
    else v.alter r fun room => room.without n
  | .quit n => { v with rooms := fun r => (v.rooms r).map fun room => room.without n }
  | .renamed old new =>
    { own := if v.own = old then new else v.own
      rooms := fun r => (v.rooms r).map fun room => room.rename old new }
  | .operator on n r => v.alter r fun room => room.regrade on n
  | .said _ _ _ => v
  | .whispered _ _ => v

/-- What a participant makes of all it is told. -/
def hearAll (v : View N R T) (notices : List (Notice N R T)) : View N R T := notices.foldl hear v

@[simp] theorem hearAll_nil (v : View N R T) : v.hearAll [] = v := rfl

@[simp] theorem hearAll_cons (v : View N R T) (n : Notice N R T) (ns : List (Notice N R T)) :
    v.hearAll (n :: ns) = (v.hear n).hearAll ns := rfl

theorem hearAll_append (v : View N R T) (ms ns : List (Notice N R T)) :
    v.hearAll (ms ++ ns) = (v.hearAll ms).hearAll ns := List.foldl_append

end View

/-- The remark in a room that a notice passes on. -/
def Notice.remark? [DecidableEq R] (r : R) : Notice N R T → Option (N × T)
  | .said n r' t => if r' = r then some (n, t) else none
  | _ => none

end Hearing

/-! ## Acts -/

/-- What participants do. Whom an act of an operator is about comes behind the operator. -/
inductive Act (P N R T : Type*) where
  | arrive (p : P) (n : N)
  | rename (p : P) (n : N)
  | found (p : P) (r : R)
  | enter (p : P) (r : R)
  | leave (p : P) (r : R)
  | expel (by_ p : P) (r : R)
  | regrade (by_ : P) (r : R) (changes : List (Bool × P))
  | retitle (by_ : P) (r : R) (t : T)
  | consult (p : P) (r : R)
  | vanish (p : P)
  | say (p : P) (r : R) (t : T)
  | whisper (p q : P) (t : T)

/-- Nobody vanishes, and nothing is said. -/
def Act.Plain {P N R T : Type*} : Act P N R T → Prop
  | .vanish _ | .say _ _ _ | .whisper _ _ _ => False
  | _ => True

/-- Something is said. -/
def Act.isSpeech {P N R T : Type*} : Act P N R T → Bool
  | .say _ _ _ | .whisper _ _ _ => true
  | _ => false

theorem Act.Plain.ne_vanish {P N R T : Type*} {a : Act P N R T} (h : a.Plain) (p : P) :
    a ≠ .vanish p := by
  rintro rfl
  exact h

theorem Act.Plain.not_isSpeech {P N R T : Type*} {a : Act P N R T} (h : a.Plain) :
    ¬ a.isSpeech = true := by
  cases a with
  | say | whisper => exact h.elim
  | arrive | rename | found | enter | leave | expel | regrade | retitle | consult | vanish =>
    exact Bool.false_ne_true

variable {P N R T : Type*}

namespace World

/-! ## Names that tell participants apart -/

/-- Nobody else has a name. -/
def Free (w : World P N R T) (p : P) (n : N) : Prop := ∀ q ∈ w.present, q ≠ p → w.name q ≠ n

/-- Two participants are in one room. -/
def Share (w : World P N R T) (p q : P) : Prop := ∃ r, p ∈ w.inside r ∧ q ∈ w.inside r

variable {w w' : World P N R T} {p q : P} {r : R}

section Soundness

variable [Inhabited N]

/-- A world in which names tell participants apart. -/
structure Sound (w : World P N R T) : Prop where
  names : Set.InjOn w.name w.present
  absent : ∀ p, p ∉ w.present → w.name p = default
  inside_sub : ∀ r, ∀ p ∈ w.inside r, p ∈ w.present
  operators_sub : ∀ r, w.operators r ⊆ w.inside r

variable (hw : w.Sound)
include hw

theorem Sound.name_ne (hp : p ∈ w.present) (hq : q ∈ w.present) (hne : p ≠ q) : w.name p ≠ w.name q :=
  fun heq => hne (hw.names hp hq heq)

/-- A name that is free keeps names apart. -/
theorem Sound.injOn_update [DecidableEq P] {n : N} (hfree : w.Free p n) :
    Set.InjOn (Function.update w.name p n) (insert p w.present) := by
  intro q hq q' hq' heq
  rw [Function.update_apply, Function.update_apply] at heq
  split_ifs at heq with h h' h'
  · rw [h, h']
  · exact absurd heq.symm (hfree q' (hq'.resolve_left h') h')
  · exact absurd heq (hfree q (hq.resolve_left h) h)
  · exact hw.names (hq.resolve_left h) (hq'.resolve_left h') heq

/-- One room may have other participants and operators. -/
theorem Sound.update [DecidableEq R] {A B : Finset P} (hA : ∀ q ∈ A, q ∈ w.present) (hBA : B ⊆ A) (r : R) :
    Sound { w with
      inside := Function.update w.inside r A
      operators := Function.update w.operators r B } where
  names := hw.names
  absent := hw.absent
  inside_sub := (Function.forall_update_iff w.inside fun _ A => ∀ q ∈ A, q ∈ w.present).mpr
    ⟨hA, fun r' _ => hw.inside_sub r'⟩
  operators_sub r' := by
    by_cases hr : r' = r
    · subst hr
      simp only [Function.update_self]
      exact hBA
    · simp only [Function.update_of_ne hr]
      exact hw.operators_sub r'

end Soundness

/-! ## What is seen -/

variable [DecidableEq P]

section Seeing

variable [DecidableEq N]

/-- A room as it is. -/
def room (w : World P N R T) (r : R) : Room N T where
  names := (w.inside r).image w.name
  operators := (w.operators r).image w.name
  topic := w.topic r

/-- What a participant should know. -/
def view (w : World P N R T) (p : P) : View N R T where
  own := w.name p
  rooms r := if p ∈ w.inside r then some (w.room r) else none

@[simp] theorem own_view (w : World P N R T) (q : P) : (w.view q).own = w.name q := rfl

theorem view_congr {w w' : World P N R T} {q : P} (hname : w'.name q = w.name q)
    (hin : ∀ r, q ∈ w'.inside r ↔ q ∈ w.inside r)
    (hroom : ∀ r, q ∈ w.inside r → w'.room r = w.room r) : w'.view q = w.view q := by
  refine View.ext hname (funext fun r => ?_)
  by_cases hq : q ∈ w.inside r
  · simp only [view, hin, hq, if_true, hroom r hq]
  · simp only [view, hin, hq, if_false]

/-- Somebody outside of everything has nothing to see. -/
theorem Sound.view_of_absent [Inhabited N] (hw : w.Sound) (hp : p ∉ w.present) : w.view p = View.start := by
  refine View.ext (hw.absent p hp) (funext fun r => ?_)
  exact if_neg fun hin => hp (hw.inside_sub r p hin)

/-! ### Sets of names -/

variable {A : Finset P}

theorem image_update_of_not_mem (hp : p ∉ A) (n : N) :
    A.image (Function.update w.name p n) = A.image w.name := by
  refine Finset.image_congr fun q hq => Function.update_of_ne (fun heq => hp ?_) _ _
  rwa [← heq]

/-- Who is taken from a set takes its name with it. -/
theorem image_erase (hinj : Set.InjOn w.name w.present) (hA : ∀ q ∈ A, q ∈ w.present)
    (hp : p ∈ w.present) : (A.erase p).image w.name = (A.image w.name).erase (w.name p) := by
  ext n
  simp only [Finset.mem_image, Finset.mem_erase]
  constructor
  · rintro ⟨q, ⟨hne, hq⟩, rfl⟩
    exact ⟨fun heq => hne (hinj (hA q hq) hp heq), q, hq, rfl⟩
  · rintro ⟨hne, q, hq, rfl⟩
    exact ⟨q, ⟨fun heq => hne (by rw [heq]), hq⟩, rfl⟩

/-- A new name takes the place of the old one. -/
theorem image_rename (hinj : Set.InjOn w.name w.present) (hA : ∀ q ∈ A, q ∈ w.present)
    (hp : p ∈ w.present) (n : N) : A.image (Function.update w.name p n)
      = (A.image w.name).image fun m => if m = w.name p then n else m := by
  rw [Finset.image_image]
  refine Finset.image_congr fun q hq => ?_
  have hiff : w.name q = w.name p ↔ q = p := ⟨fun heq => hinj (hA q hq) hp heq, fun heq => by rw [heq]⟩
  simp only [Function.update_apply, Function.comp_apply, hiff]

omit [DecidableEq P] in
/-- Everybody who is known in a room is there under its own name. -/
theorem Sound.image_inside_congr [Inhabited N] (hw : w.Sound) {f : P → N}
    (hf : ∀ q, q ∈ w.present → f q = w.name q) :
    (w.inside r).image f = (w.inside r).image w.name
      ∧ (w.operators r).image f = (w.operators r).image w.name :=
  ⟨Finset.image_congr fun q hq => hf q (hw.inside_sub r q hq),
    Finset.image_congr fun q hq => hf q (hw.inside_sub r q (hw.operators_sub r hq))⟩

end Seeing

/-! ## One room -/

variable [DecidableEq R]

/-- The world without somebody in a room. -/
def without (w : World P N R T) (p : P) (r : R) : World P N R T :=
  { w with
    inside := Function.update w.inside r ((w.inside r).erase p)
    operators := Function.update w.operators r ((w.operators r).erase p) }

/-- Two worlds that differ in one room only. -/
structure Beside (w w' : World P N R T) (r : R) : Prop where
  name : w'.name = w.name
  inside : ∀ r', r' ≠ r → w'.inside r' = w.inside r'
  operators : ∀ r', r' ≠ r → w'.operators r' = w.operators r'
  topic : ∀ r', r' ≠ r → w'.topic r' = w.topic r'

theorem beside_without : Beside w (w.without p r) r where
  name := rfl
  inside _ hr := Function.update_of_ne hr _ _
  operators _ hr := Function.update_of_ne hr _ _
  topic _ _ := rfl

section Seeing

variable [DecidableEq N]

/-- What is seen of a room is all that changes. -/
theorem Beside.view_eq (h : Beside w w' r) (q : P) :
    w'.view q = (w.view q).put r (if q ∈ w'.inside r then some (w'.room r) else none) := by
  refine View.ext ?_ (funext fun r' => ?_)
  · show w'.name q = w.name q
    rw [h.name]
  · show _ = Function.update (w.view q).rooms r _ r'
    by_cases hr : r' = r
    · subst hr
      rw [Function.update_self]
      rfl
    · rw [Function.update_of_ne hr]
      simp only [view, room, h.name, h.inside r' hr, h.operators r' hr, h.topic r' hr]

/-- For somebody outside nothing changes. -/
theorem Beside.view_of_outside (h : Beside w w' r) (hq : q ∉ w.inside r) (hq' : q ∉ w'.inside r) :
    w'.view q = w.view q := by
  rw [h.view_eq, if_neg hq']
  refine View.ext rfl (Function.update_eq_self_iff.mpr ?_)
  exact (if_neg hq).symm

/-- What somebody inside knows of the room. -/
theorem alter_view (hq : q ∈ w.inside r) (f : Room N T → Room N T) :
    (w.view q).alter r f = (w.view q).put r (some (f (w.room r))) := by
  have hroom : (w.view q).rooms r = some (w.room r) := if_pos hq
  rw [View.alter, hroom]
  rfl

/-- A notice on a room shows somebody inside the room as it is now. -/
theorem Beside.view_of_alter (h : Beside w w' r) (hq : q ∈ w.inside r) (hq' : q ∈ w'.inside r)
    {f : Room N T → Room N T} (hf : f (w.room r) = w'.room r) :
    (w.view q).alter r f = w'.view q := by
  rw [h.view_eq, if_pos hq', alter_view hq, hf]

theorem put_room (hq : q ∈ w.inside r) : (w.view q).put r (some (w.room r)) = w.view q := by
  refine View.ext rfl (Function.update_eq_self_iff.mpr ?_)
  exact (if_pos hq).symm

theorem Sound.room_without [Inhabited N] (hw : w.Sound) (hp : p ∈ w.inside r) :
    (w.without p r).room r = (w.room r).without (w.name p) := by
  have hpresent := hw.inside_sub r p hp
  have hops : ∀ q ∈ w.operators r, q ∈ w.present :=
    fun q hq => hw.inside_sub r q (hw.operators_sub r hq)
  simp only [World.room, World.without, Room.without, Function.update_self]
  rw [image_erase hw.names (hw.inside_sub r) hpresent, image_erase hw.names hops hpresent]

/-- Who leaves a room does not see it any more, and the others do not see who has left. -/
theorem Sound.view_left [Inhabited N] [Inhabited T] (hw : w.Sound) (hp : p ∈ w.inside r) (h : Beside w w' r)
    (hinside : w'.inside r = (w.inside r).erase p)
    (hroom : ∀ q, q ∈ w'.inside r → w'.room r = (w.room r).without (w.name p)) (q : P) :
    (w.view q).hearAll (if q ∈ w.inside r then [.left (w.name p) r] else []) = w'.view q := by
  split_ifs with hq
  swap
  · refine (h.view_of_outside hq fun hin => hq ?_).symm
    rw [hinside] at hin
    exact Finset.mem_of_mem_erase hin
  rw [View.hearAll_cons, View.hearAll_nil, View.hear]
  by_cases hqp : q = p
  · subst hqp
    have hout : q ∉ w'.inside r := by
      rw [hinside]
      exact Finset.notMem_erase q _
    rw [own_view, if_pos rfl, h.view_eq, if_neg hout]
  · have hin : q ∈ w'.inside r := by
      rw [hinside]
      exact Finset.mem_erase.mpr ⟨hqp, hq⟩
    rw [own_view, if_neg (hw.name_ne (hw.inside_sub r p hp) (hw.inside_sub r q hq) (Ne.symm hqp))]
    exact h.view_of_alter hq hin (hroom q hin).symm

end Seeing

/-! ## What happens -/

variable [Inhabited N]

theorem Sound.without (hw : w.Sound) (p : P) (r : R) : (w.without p r).Sound :=
  hw.update (fun q hq => hw.inside_sub r q (Finset.mem_of_mem_erase hq))
    (Finset.erase_subset_erase p (hw.operators_sub r)) r

variable [Inhabited T]

/-- The operators after some have been made and some unmade. -/
def regraded (operators : Finset P) (changes : List (Bool × P)) : Finset P :=
  changes.foldl (fun ops c => if c.1 then insert c.2 ops else ops.erase c.2) operators

theorem regraded_sub {A B : Finset P} (hAB : A ⊆ B) {changes : List (Bool × P)}
    (hchanges : ∀ c ∈ changes, c.2 ∈ B) : regraded A changes ⊆ B := by
  induction changes generalizing A with
  | nil => exact hAB
  | cons c changes ih =>
    have hstep : (if c.1 then insert c.2 A else A.erase c.2) ⊆ B := by
      split_ifs
      · exact Finset.insert_subset (hchanges c List.mem_cons_self) hAB
      · exact (Finset.erase_subset _ _).trans hAB
    exact ih hstep fun d hd => hchanges d (List.mem_cons_of_mem _ hd)

/-- What an act presupposes. -/
def Enabled (w : World P N R T) : Act P N R T → Prop
  | .arrive p n => p ∉ w.present ∧ w.Free p n
  | .rename p n => p ∈ w.present ∧ w.Free p n
  | .found p r => p ∈ w.present ∧ w.inside r = ∅ ∧ w.topic r = default
  | .enter p r => p ∈ w.present ∧ p ∉ w.inside r
  | .leave p r => p ∈ w.inside r
  | .expel by_ p r => by_ ∈ w.operators r ∧ p ∈ w.inside r
  | .regrade by_ r changes => by_ ∈ w.operators r ∧ ∀ c ∈ changes, c.2 ∈ w.inside r
  | .retitle by_ r _ => by_ ∈ w.inside r
  | .consult p r => p ∈ w.inside r
  | .vanish p => p ∈ w.present
  | .say p r _ => p ∈ w.inside r
  | .whisper p _ _ => p ∈ w.present

/-- What an act makes of the world. A room that its last member leaves is closed and loses its topic;
one whose last member is expelled or vanishes does not. -/
def apply (w : World P N R T) : Act P N R T → World P N R T
  | .arrive p n => { w with present := insert p w.present, name := Function.update w.name p n }
  | .rename p n => { w with name := Function.update w.name p n }
  | .found p r =>
    { w with
      inside := Function.update w.inside r {p}
      operators := Function.update w.operators r {p} }
  | .enter p r => { w with inside := Function.update w.inside r (insert p (w.inside r)) }
  | .leave p r =>
    { w.without p r with
      topic := Function.update w.topic r (if (w.inside r).erase p = ∅ then default else w.topic r) }
  | .expel _ p r => w.without p r
  | .regrade _ r changes =>
    { w with operators := Function.update w.operators r (regraded (w.operators r) changes) }
  | .retitle _ r t => { w with topic := Function.update w.topic r t }
  | .consult _ _ => w
  | .vanish p =>
    { w with
      present := w.present \ {p}
      name := Function.update w.name p default
      inside := fun r => (w.inside r).erase p
      operators := fun r => (w.operators r).erase p }
  | .say _ _ _ => w
  | .whisper _ _ _ => w

theorem Sound.apply (hw : w.Sound) {a : Act P N R T} (ha : w.Enabled a) : (w.apply a).Sound := by
  cases a with
  | arrive p n =>
    refine ⟨hw.injOn_update ha.2, fun q hq => ?_, fun r q hq => ?_, hw.operators_sub⟩
    · have hq' : q ≠ p ∧ q ∉ w.present := not_or.mp hq
      show Function.update w.name p n q = default
      rw [Function.update_of_ne hq'.1, hw.absent q hq'.2]
    · exact Set.mem_insert_of_mem p (hw.inside_sub r q hq)
  | rename p n =>
    refine ⟨(hw.injOn_update ha.2).mono (Set.subset_insert p _), fun q hq => ?_, hw.inside_sub,
      hw.operators_sub⟩
    have hne : q ≠ p := fun heq => hq (heq ▸ ha.1)
    show Function.update w.name p n q = default
    rw [Function.update_of_ne hne, hw.absent q hq]
  | found p r =>
    refine hw.update (fun q hq => ?_) (Finset.Subset.refl _) r
    rw [Finset.mem_singleton.mp hq]
    exact ha.1
  | enter p r =>
    have h := hw.update (A := insert p (w.inside r)) (fun q hq => ?_)
      ((hw.operators_sub r).trans (Finset.subset_insert p _)) r
    · rwa [Function.update_eq_self] at h
    · rcases Finset.mem_insert.mp hq with rfl | hq
      · exact ha.1
      · exact hw.inside_sub r q hq
  | leave p r =>
    have h := hw.without p r
    exact ⟨h.names, h.absent, h.inside_sub, h.operators_sub⟩
  | expel by_ p r => exact hw.without p r
  | regrade by_ r changes =>
    have h := hw.update (hw.inside_sub r) (regraded_sub (hw.operators_sub r) ha.2) r
    rwa [Function.update_eq_self] at h
  | retitle by_ r t => exact ⟨hw.names, hw.absent, hw.inside_sub, hw.operators_sub⟩
  | consult | say | whisper => exact hw
  | vanish p =>
    refine ⟨fun q hq q' hq' heq => ?_, fun q hq => ?_, fun r q hq => ?_, fun r => ?_⟩
    · have heq' : Function.update w.name p default q = Function.update w.name p default q' := heq
      rw [Function.update_of_ne hq.2, Function.update_of_ne hq'.2] at heq'
      exact hw.names hq.1 hq'.1 heq'
    · show Function.update w.name p default q = default
      by_cases hqp : q = p
      · subst hqp
        rw [Function.update_self]
      · rw [Function.update_of_ne hqp]
        exact hw.absent q fun hin => hq ⟨hin, hqp⟩
    · have hq' := Finset.mem_erase.mp (show q ∈ (w.inside r).erase p from hq)
      exact ⟨hw.inside_sub r q hq'.2, hq'.1⟩
    · exact Finset.erase_subset_erase p (hw.operators_sub r)

/-- Nobody vanishes twice. -/
theorem Sound.apply_vanish_of_absent (hw : w.Sound) (hp : p ∉ w.present) : w.apply (.vanish p) = w := by
  have hout : ∀ r, p ∉ w.inside r := fun r hin => hp (hw.inside_sub r p hin)
  refine World.ext ?_ ?_ (funext fun r => ?_) (funext fun r => ?_) rfl
  · exact Set.sdiff_singleton_eq_self hp
  · exact Function.update_eq_self_iff.mpr (hw.absent p hp).symm
  · exact Finset.erase_eq_of_notMem (hout r)
  · exact Finset.erase_eq_of_notMem fun hop => hout r (hw.operators_sub r hop)

/-! ### Runs -/

/-- Every act of a run is enabled when its turn comes. -/
def Admits (w : World P N R T) : List (Act P N R T) → Prop
  | [] => True
  | a :: as => w.Enabled a ∧ (w.apply a).Admits as

/-- The world after some acts. -/
def run (w : World P N R T) (as : List (Act P N R T)) : World P N R T := as.foldl apply w

section Runs

variable {as bs : List (Act P N R T)}

theorem run_append (w : World P N R T) (as bs : List (Act P N R T)) :
    w.run (as ++ bs) = (w.run as).run bs := List.foldl_append

theorem admits_append : w.Admits (as ++ bs) ↔ w.Admits as ∧ (w.run as).Admits bs := by
  induction as generalizing w with
  | nil => exact (true_and _).symm.to_iff
  | cons a as ih =>
    rw [List.cons_append, Admits, Admits, ih, and_assoc]
    rfl

theorem Sound.run (hw : w.Sound) (h : w.Admits as) : (w.run as).Sound := by
  induction as generalizing w with
  | nil => exact hw
  | cons a as ih => exact ih (hw.apply h.1) h.2

end Runs

/-! ### What is said -/

/-- The remark that an act is in a room, with who makes it and the name it has. -/
def remarks (w : World P N R T) (r : R) : Act P N R T → List (P × N × T)
  | .say p r' t => if r' = r then [(p, w.name p, t)] else []
  | _ => []

/-- All that is said in a room. -/
def transcript (w : World P N R T) (r : R) : List (Act P N R T) → List (P × N × T)
  | [] => []
  | a :: as => w.remarks r a ++ (w.apply a).transcript r as

/-- Somebody is in the room whenever something is said there. -/
def Attends (w : World P N R T) (q : P) (r : R) : List (Act P N R T) → Prop
  | [] => True
  | a :: as => (∀ p t, a = .say p r t → q ∈ w.inside r) ∧ (w.apply a).Attends q r as

section Speech

variable {as : List (Act P N R T)}

/-- Speech changes nothing. -/
theorem apply_of_isSpeech {w : World P N R T} {a : Act P N R T} (h : a.isSpeech = true) :
    w.apply a = w := by
  cases a with
  | say | whisper => rfl
  | arrive | rename | found | enter | leave | expel | regrade | retitle | consult | vanish => cases h

/-- Acts that say nothing. -/
theorem attends_of_silent {w : World P N R T} (h : as.filter Act.isSpeech = []) (q : P) (r : R) :
    w.Attends q r as ∧ w.transcript r as = [] := by
  induction as generalizing w with
  | nil => exact ⟨trivial, rfl⟩
  | cons a as ih =>
    rw [List.filter_eq_nil_iff] at h
    have ha : ¬ a.isSpeech = true := h a List.mem_cons_self
    have hsay : ∀ p t, a ≠ .say p r t := by
      rintro p t rfl
      exact ha rfl
    obtain ⟨hattends, hnothing⟩ := ih (w := w.apply a)
      (List.filter_eq_nil_iff.mpr fun b hb => h b (List.mem_cons_of_mem a hb))
    refine ⟨⟨fun p t heq => absurd heq (hsay p t), hattends⟩, ?_⟩
    rw [transcript, hnothing, List.append_nil]
    cases a with
    | say | whisper => exact absurd rfl ha
    | arrive | rename | found | enter | leave | expel | regrade | retitle | consult | vanish => rfl

/-- Speech alone, which leaves everybody in place. -/
theorem attends_of_speech {w : World P N R T} (h : ∀ a ∈ as, a.isSpeech = true) {q : P} {r : R}
    (hq : q ∈ w.inside r) : w.Attends q r as := by
  induction as with
  | nil => trivial
  | cons a as ih =>
    have hsame : w.apply a = w := apply_of_isSpeech (h a List.mem_cons_self)
    refine ⟨fun _ _ _ => hq, ?_⟩
    rw [hsame]
    exact ih fun b hb => h b (List.mem_cons_of_mem a hb)

theorem transcript_of_speech {w : World P N R T} (h : ∀ a ∈ as, a.isSpeech = true) (r : R) :
    w.transcript r as = as.flatMap (w.remarks r) := by
  induction as with
  | nil => rfl
  | cons a as ih =>
    have hsame : w.apply a = w := apply_of_isSpeech (h a List.mem_cons_self)
    rw [transcript, hsame, ih fun b hb => h b (List.mem_cons_of_mem a hb), List.flatMap_cons]

end Speech

/-! ## What is heard -/

section Hearing

variable [DecidableEq N]

/-- Whoever is told one by one who becomes an operator and who does not stay one knows the
operators. -/
theorem Sound.hear_regraded (hw : w.Sound) (v : View N R T) (r : R) (names : Finset N) (t : T)
    (changes : List (Bool × P)) {A : Finset P} (hA : ∀ q ∈ A, q ∈ w.present)
    (hchanges : ∀ c ∈ changes, c.2 ∈ w.present) :
    (v.put r (some ⟨names, A.image w.name, t⟩)).hearAll
        (changes.map fun c => .operator c.1 (w.name c.2) r)
      = v.put r (some ⟨names, (regraded A changes).image w.name, t⟩) := by
  induction changes generalizing A with
  | nil => rfl
  | cons c changes ih =>
    obtain ⟨on, q⟩ := c
    have hq : q ∈ w.present := hchanges (on, q) List.mem_cons_self
    have hrest : ∀ c ∈ changes, c.2 ∈ w.present := fun c hc => hchanges c (List.mem_cons_of_mem _ hc)
    rw [List.map_cons, View.hearAll_cons, View.hear, View.alter_put]
    cases on with
    | true =>
      have hstep := ih (A := insert q A) (fun p hp => ?_) hrest
      · rw [Finset.image_insert] at hstep
        exact hstep
      · rcases Finset.mem_insert.mp hp with rfl | hp
        · exact hq
        · exact hA p hp
    | false =>
      have hstep := ih (A := A.erase q) (fun p hp => hA p (Finset.mem_of_mem_erase hp)) hrest
      rw [image_erase hw.names hA hq] at hstep
      exact hstep

variable [DecidableEq T]

open scoped Classical in
/-- What an act tells a participant. -/
noncomputable def hears (w : World P N R T) (q : P) : Act P N R T → List (Notice N R T)
  | .arrive p n => if q = p then [.welcome n] else []
  | .rename p n => if q = p ∨ w.Share p q then [.renamed (w.name p) n] else []
  | .found p r => if q = p then [.joined (w.name p) r, .names r {w.name p} {w.name p}] else []
  | .enter p r =>
    if q = p then
      [.joined (w.name p) r]
      ++ (if w.topic r = default then [] else [.topic r (w.topic r)])
      ++ [.names r ((insert p (w.inside r)).image w.name) ((w.operators r).image w.name)]
    else if q ∈ w.inside r then [.joined (w.name p) r]
    else []
  | .leave p r => if q ∈ w.inside r then [.left (w.name p) r] else []
  | .expel _ p r => if q ∈ w.inside r then [.left (w.name p) r] else []
  | .regrade _ r changes =>
    if q ∈ w.inside r then changes.map fun c => .operator c.1 (w.name c.2) r else []
  | .retitle _ r t => if q ∈ w.inside r then [.topic r t] else []
  | .consult p r => if q = p then [.topic r (w.topic r)] else []
  | .vanish p => if q ≠ p ∧ w.Share p q then [.quit (w.name p)] else []
  | .say p r t => if q ∈ w.inside r ∧ q ≠ p then [.said (w.name p) r t] else []
  | .whisper p q' t => if q = q' then [.whispered (w.name p) t] else []

theorem view_found (hempty : w.inside r = ∅) (htopic : w.topic r = default) (q : P) :
    (w.view q).hearAll (w.hears q (.found p r)) = (w.apply (.found p r)).view q := by
  have hbeside : Beside w (w.apply (.found p r)) r :=
    ⟨rfl, fun r' hr => Function.update_of_ne hr _ _, fun r' hr => Function.update_of_ne hr _ _,
      fun _ _ => rfl⟩
  have hinside : (w.apply (.found p r)).inside r = {p} := Function.update_self ..
  have hops : (w.apply (.found p r)).operators r = {p} := Function.update_self ..
  have hout : ∀ q, q ∉ w.inside r := fun q hq => by rw [hempty] at hq; exact Finset.notMem_empty q hq
  rw [hears]
  split_ifs with hq
  · subst hq
    rw [hbeside.view_eq, hinside, if_pos (Finset.mem_singleton_self q)]
    simp only [View.hearAll_cons, View.hearAll_nil, View.hear, own_view, if_true, View.alter_put]
    congr 2
    refine Room.ext ?_ ?_ ?_
    · simp [room, hinside, show (w.apply (.found q r)).name = w.name from rfl]
    · simp [room, hops, show (w.apply (.found q r)).name = w.name from rfl]
    · exact htopic.symm
  · refine (hbeside.view_of_outside (hout q) ?_).symm
    rw [hinside, Finset.mem_singleton]
    exact hq

theorem view_retitle {by_ : P} {t : T} (q : P) :
    (w.view q).hearAll (w.hears q (.retitle by_ r t)) = (w.apply (.retitle by_ r t)).view q := by
  have hbeside : Beside w (w.apply (.retitle by_ r t)) r :=
    ⟨rfl, fun _ _ => rfl, fun _ _ => rfl, fun r' hr => Function.update_of_ne hr _ _⟩
  rw [hears]
  split_ifs with hq
  · refine hbeside.view_of_alter (f := fun room => { room with topic := t }) hq hq ?_
    refine Room.ext rfl rfl ?_
    show t = Function.update w.topic r t r
    rw [Function.update_self]
  · exact (hbeside.view_of_outside hq hq).symm

section Acts

variable (hw : w.Sound)
include hw

theorem Sound.view_arrive {n : N} (hp : p ∉ w.present) (q : P) :
    (w.view q).hearAll (w.hears q (.arrive p n)) = (w.apply (.arrive p n)).view q := by
  have hout : ∀ r, p ∉ w.inside r := fun r hin => hp (hw.inside_sub r p hin)
  have hroom : ∀ r, (w.apply (.arrive p n)).room r = w.room r := by
    intro r
    have himage := hw.image_inside_congr (r := r) (f := Function.update w.name p n)
      fun q hq => Function.update_of_ne (fun heq => hp (by rwa [← heq])) _ _
    show (⟨_, _, _⟩ : Room N T) = ⟨_, _, _⟩
    rw [show (w.apply (.arrive p n)).name = Function.update w.name p n from rfl]
    exact Room.ext himage.1 himage.2 rfl
  rw [hears]
  split_ifs with hq
  · subst hq
    refine View.ext ?_ (funext fun r => ?_)
    · show n = Function.update w.name q n q
      rw [Function.update_self]
    · show (if q ∈ w.inside r then some (w.room r) else none)
        = if q ∈ w.inside r then some ((w.apply (.arrive q n)).room r) else none
      rw [if_neg (hout r), if_neg (hout r)]
  · symm
    apply view_congr
    · exact Function.update_of_ne hq _ _
    · exact fun _ => Iff.rfl
    · exact fun r _ => hroom r

theorem Sound.view_rename {n : N} (hp : p ∈ w.present) (q : P) :
    (w.view q).hearAll (w.hears q (.rename p n)) = (w.apply (.rename p n)).view q := by
  have hops : ∀ r, ∀ q ∈ w.operators r, q ∈ w.present :=
    fun r q hq => hw.inside_sub r q (hw.operators_sub r hq)
  have hroom : ∀ r, (w.apply (.rename p n)).room r = (w.room r).rename (w.name p) n := fun r =>
    Room.ext (image_rename hw.names (hw.inside_sub r) hp n) (image_rename hw.names (hops r) hp n) rfl
  rw [hears]
  split_ifs with hq
  · have hqpresent : q ∈ w.present := by
      rcases hq with rfl | ⟨r, _, hin⟩
      · exact hp
      · exact hw.inside_sub r q hin
    have hiff : w.name q = w.name p ↔ q = p :=
      ⟨fun heq => hw.names hqpresent hp heq, fun heq => by rw [heq]⟩
    refine View.ext ?_ (funext fun r => ?_)
    · show (if w.name q = w.name p then n else w.name q) = Function.update w.name p n q
      simp only [Function.update_apply, hiff]
    · show ((w.view q).rooms r).map _ = if q ∈ w.inside r then some ((w.apply (.rename p n)).room r) else none
      rw [hroom r]
      by_cases hin : q ∈ w.inside r
      · rw [if_pos hin, show (w.view q).rooms r = some (w.room r) from if_pos hin, Option.map_some]
      · rw [if_neg hin, show (w.view q).rooms r = none from if_neg hin, Option.map_none]
  · -- somebody who shares no room with the one that changes its name
    obtain ⟨hqp, hshare⟩ := not_or.mp hq
    symm
    apply view_congr
    · exact Function.update_of_ne hqp _ _
    · exact fun _ => Iff.rfl
    intro r hin
    have hout : p ∉ w.inside r := fun hpin => hshare ⟨r, hpin, hin⟩
    exact Room.ext (image_update_of_not_mem hout n)
      (image_update_of_not_mem (fun hop => hout (hw.operators_sub r hop)) n) rfl

theorem Sound.view_vanish (hp : p ∈ w.present) (hqp : q ≠ p) :
    (w.view q).hearAll (w.hears q (.vanish p)) = (w.apply (.vanish p)).view q := by
  have hops : ∀ r, ∀ q ∈ w.operators r, q ∈ w.present :=
    fun r q hq => hw.inside_sub r q (hw.operators_sub r hq)
  have hroom : ∀ r, (w.apply (.vanish p)).room r = (w.room r).without (w.name p) := by
    intro r
    refine Room.ext ?_ ?_ rfl
    · show ((w.inside r).erase p).image (Function.update w.name p default) = _
      rw [image_update_of_not_mem (Finset.notMem_erase p _), image_erase hw.names (hw.inside_sub r) hp]
      rfl
    · show ((w.operators r).erase p).image (Function.update w.name p default) = _
      rw [image_update_of_not_mem (Finset.notMem_erase p _), image_erase hw.names (hops r) hp]
      rfl
  have hin : ∀ r, q ∈ (w.inside r).erase p ↔ q ∈ w.inside r :=
    fun r => Finset.mem_erase.trans (and_iff_right hqp)
  rw [hears]
  split_ifs with hshare
  · refine View.ext ?_ (funext fun r => ?_)
    · show w.name q = Function.update w.name p default q
      rw [Function.update_of_ne hqp]
    · show ((w.view q).rooms r).map _
        = if q ∈ (w.inside r).erase p then some ((w.apply (.vanish p)).room r) else none
      simp only [hroom r, hin r]
      by_cases hqr : q ∈ w.inside r
      · rw [if_pos hqr, show (w.view q).rooms r = some (w.room r) from if_pos hqr, Option.map_some]
      · rw [if_neg hqr, show (w.view q).rooms r = none from if_neg hqr, Option.map_none]
  · symm
    apply view_congr
    · exact Function.update_of_ne hqp _ _
    · exact hin
    intro r hqr
    have hout : p ∉ w.inside r := fun hpin => hshare ⟨hqp, r, hpin, hqr⟩
    refine Room.ext ?_ ?_ rfl
    · show ((w.inside r).erase p).image (Function.update w.name p default) = _
      rw [Finset.erase_eq_of_notMem hout, image_update_of_not_mem hout]
      rfl
    · show ((w.operators r).erase p).image (Function.update w.name p default) = _
      have hout' : p ∉ w.operators r := fun hop => hout (hw.operators_sub r hop)
      rw [Finset.erase_eq_of_notMem hout', image_update_of_not_mem hout']
      rfl

theorem Sound.view_enter (hp : p ∈ w.present) (hout : p ∉ w.inside r) (q : P) :
    (w.view q).hearAll (w.hears q (.enter p r)) = (w.apply (.enter p r)).view q := by
  have hbeside : Beside w (w.apply (.enter p r)) r :=
    ⟨rfl, fun r' hr => Function.update_of_ne hr _ _, fun _ _ => rfl, fun _ _ => rfl⟩
  have hinside : (w.apply (.enter p r)).inside r = insert p (w.inside r) := Function.update_self ..
  have hroom : (w.apply (.enter p r)).room r
      = ⟨(insert p (w.inside r)).image w.name, (w.operators r).image w.name, w.topic r⟩ := by
    rw [room, hinside]
    rfl
  rw [hears]
  split_ifs with hq htopic hqr
  · subst hq
    rw [hbeside.view_eq, hinside, if_pos (Finset.mem_insert_self q _), hroom]
    simp [View.hear, htopic]
  · subst hq
    rw [hbeside.view_eq, hinside, if_pos (Finset.mem_insert_self q _), hroom]
    simp [View.hear]
  · have hne := hw.name_ne hp (hw.inside_sub r q hqr) (Ne.symm hq)
    have hq' : q ∈ (w.apply (.enter p r)).inside r := by
      rw [hinside]
      exact Finset.mem_insert_of_mem hqr
    rw [View.hearAll_cons, View.hearAll_nil, View.hear, own_view, if_neg hne]
    refine hbeside.view_of_alter hqr hq' ?_
    rw [hroom, Finset.image_insert]
    rfl
  · refine (hbeside.view_of_outside hqr ?_).symm
    rw [hinside, Finset.mem_insert]
    exact not_or.mpr ⟨hq, hqr⟩

theorem Sound.view_regrade {by_ : P} {changes : List (Bool × P)}
    (hchanges : ∀ c ∈ changes, c.2 ∈ w.inside r) (q : P) :
    (w.view q).hearAll (w.hears q (.regrade by_ r changes)) = (w.apply (.regrade by_ r changes)).view q := by
  have hbeside : Beside w (w.apply (.regrade by_ r changes)) r :=
    ⟨rfl, fun _ _ => rfl, fun r' hr => Function.update_of_ne hr _ _, fun _ _ => rfl⟩
  rw [hears]
  split_ifs with hq
  · have hheard := hw.hear_regraded (w.view q) r ((w.inside r).image w.name) (w.topic r) changes
      (A := w.operators r) (fun p hp => hw.inside_sub r p (hw.operators_sub r hp))
      fun c hc => hw.inside_sub r c.2 (hchanges c hc)
    have hroom : (w.apply (.regrade by_ r changes)).room r
        = ⟨(w.inside r).image w.name, (regraded (w.operators r) changes).image w.name, w.topic r⟩ := by
      rw [room, show (w.apply (.regrade by_ r changes)).operators r
        = regraded (w.operators r) changes from Function.update_self ..]
      rfl
    rw [hbeside.view_eq, if_pos (show q ∈ (w.apply (.regrade by_ r changes)).inside r from hq), hroom,
      ← hheard, ← put_room hq]
    simp only [View.put_put]
    rfl
  · exact (hbeside.view_of_outside hq hq).symm

theorem Sound.view_expel {by_ : P} (hp : p ∈ w.inside r) (q : P) :
    (w.view q).hearAll (w.hears q (.expel by_ p r)) = (w.apply (.expel by_ p r)).view q := by
  have hinside : (w.without p r).inside r = (w.inside r).erase p := Function.update_self ..
  exact hw.view_left hp beside_without hinside (fun _ _ => hw.room_without hp) q

theorem Sound.view_leave (hp : p ∈ w.inside r) (q : P) :
    (w.view q).hearAll (w.hears q (.leave p r)) = (w.apply (.leave p r)).view q := by
  have hinside : (w.apply (.leave p r)).inside r = (w.inside r).erase p := Function.update_self ..
  have hbeside : Beside w (w.apply (.leave p r)) r :=
    ⟨rfl, beside_without.inside, beside_without.operators,
      fun r' hr => Function.update_of_ne hr _ _⟩
  refine hw.view_left hp hbeside hinside (fun q hq => ?_) q
  -- somebody is still there, so the topic stays
  have hne : (w.inside r).erase p ≠ ∅ := by
    rw [hinside] at hq
    exact Finset.ne_empty_of_mem hq
  have htopic : (w.apply (.leave p r)).topic r = w.topic r := by
    show Function.update w.topic r (if _ then _ else _) r = _
    rw [Function.update_self, if_neg hne]
  have hroom := hw.room_without hp
  rw [← hroom]
  exact Room.ext rfl rfl htopic

/-- Whoever hears what an act tells it sees the world as the act has left it. -/
theorem Sound.view_apply {a : Act P N R T} (ha : w.Enabled a) (hq : a ≠ .vanish q) :
    (w.view q).hearAll (w.hears q a) = (w.apply a).view q := by
  cases a with
  | arrive p n => exact hw.view_arrive ha.1 q
  | rename p n => exact hw.view_rename ha.1 q
  | found p r => exact view_found ha.2.1 ha.2.2 q
  | enter p r => exact hw.view_enter ha.1 ha.2 q
  | leave p r => exact hw.view_leave ha q
  | expel by_ p r => exact hw.view_expel ha.2 q
  | regrade by_ r changes => exact hw.view_regrade ha.2 q
  | retitle by_ r t => exact view_retitle q
  | consult p r =>
    rw [hears]
    split_ifs with hqp
    · subst hqp
      rw [View.hearAll_cons, View.hearAll_nil, View.hear, alter_view ha]
      exact put_room ha
    · rfl
  | vanish p => exact hw.view_vanish ha fun heq => hq (by rw [heq])
  | say | whisper =>
    rw [hears]
    split_ifs <;> rfl

end Acts

/-! ### Over a run -/

variable {as bs : List (Act P N R T)}

/-- What a participant is told in a run. -/
noncomputable def heard (w : World P N R T) (q : P) : List (Act P N R T) → List (Notice N R T)
  | [] => []
  | a :: as => w.hears q a ++ (w.apply a).heard q as

theorem heard_append (q : P) : w.heard q (as ++ bs) = w.heard q as ++ (w.run as).heard q bs := by
  induction as generalizing w with
  | nil => rfl
  | cons a as ih =>
    rw [List.cons_append, heard, heard, ih, List.append_assoc]
    rfl

/-- Over a whole run, whoever stays and hears what it is told sees the world as it is. -/
theorem Sound.view_run (hw : w.Sound) (h : w.Admits as) (hq : ∀ a ∈ as, a ≠ .vanish q) :
    (w.view q).hearAll (w.heard q as) = (w.run as).view q := by
  induction as generalizing w with
  | nil => rfl
  | cons a as ih =>
    rw [heard, View.hearAll_append, hw.view_apply h.1 (hq a List.mem_cons_self)]
    exact ih (hw.apply h.1) h.2 fun b hb => hq b (List.mem_cons_of_mem a hb)

omit [Inhabited N] in
/-- A remark is heard by all others, and nothing else is heard as one. -/
theorem filterMap_hears {w : World P N R T} {a : Act P N R T} {q : P}
    (hq : ∀ p t, a = .say p r t → q ∈ w.inside r) :
    (w.hears q a).filterMap (Notice.remark? r)
      = ((w.remarks r a).filter fun e => e.1 ≠ q).map Prod.snd := by
  cases a with
  | say p r' t =>
    rw [hears, remarks]
    by_cases hr : r' = r
    · subst hr
      rw [if_pos rfl]
      by_cases hp : p = q
      · rw [if_neg fun h => h.2 hp.symm, List.filter_cons_of_neg (by simpa using hp)]
        rfl
      · rw [if_pos ⟨hq p t rfl, Ne.symm hp⟩, List.filter_cons_of_pos (by simpa using hp)]
        simp [Notice.remark?]
    · rw [if_neg hr]
      split_ifs
      · simp [Notice.remark?, hr]
      · rfl
  | regrade by_ r' changes =>
    rw [hears]
    split_ifs
    · rw [List.filterMap_map]
      exact List.filterMap_eq_nil_iff.mpr fun _ _ => rfl
    · rfl
  | enter p r' =>
    rw [hears]
    split_ifs <;> rfl
  | arrive | rename | found | leave | expel | retitle | consult | vanish | whisper =>
    rw [hears]
    split_ifs <;> rfl

/-- Whoever attends hears all that the others say in the room, in order, and nothing else is passed
on as said there. -/
theorem heard_transcript {w : World P N R T} {q : P} (h : w.Attends q r as) :
    (w.heard q as).filterMap (Notice.remark? r)
      = ((w.transcript r as).filter fun e => e.1 ≠ q).map Prod.snd := by
  induction as generalizing w with
  | nil => rfl
  | cons a as ih =>
    rw [heard, transcript, List.filterMap_append, List.filter_append, List.map_append,
      filterMap_hears h.1, ih h.2]

end Hearing

end World

end Presence

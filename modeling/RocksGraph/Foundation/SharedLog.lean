import Mathlib.Data.List.Infix
import Mathlib.Data.List.TakeDrop
import RocksGraph.Foundation.Transition

/-! A log that successive leaders extend.

The log of the current leader is what it appends to. Its committed prefix is
final; the rest may be lost when another leader takes over, and the log of the
new leader may bring back a suffix that an earlier leader had written. This is
all that the users of a consensus module rely on. -/

set_option autoImplicit false

namespace RocksGraph.Foundation

open List

variable {Node Record : Type}

/-- The log as its users see it. `past` keeps the logs of deposed leaders: the
log of a new leader is a prefix of one of them or of the current one. -/
structure SharedLog (Node Record : Type) where
  leader : Option Node
  log : List Record
  committed : Nat
  past : List (List Record)
  bounded : committed ≤ log.length

namespace SharedLog

def empty : SharedLog Node Record where
  leader := none
  log := []
  committed := 0
  past := []
  bounded := Nat.le_refl 0

def committedLog (shared : SharedLog Node Record) : List Record :=
  shared.log.take shared.committed

def append (shared : SharedLog Node Record) (record : Record) : SharedLog Node Record where
  leader := shared.leader
  log := shared.log ++ [record]
  committed := shared.committed
  past := shared.past
  bounded := by
    rw [length_append]
    exact Nat.le_add_right_of_le shared.bounded

/-- A node becomes leader with a log that holds every committed record. -/
def elect [DecidableEq Record] (shared : SharedLog Node Record) (node : Node)
    (branch : List Record) : Option (SharedLog Node Record) :=
  if holds : shared.committedLog <+: branch ∧ ∃ earlier ∈ shared.log :: shared.past,
      branch <+: earlier then
    some {
      leader := some node
      log := branch
      committed := shared.committed
      past := shared.log :: shared.past
      bounded := by
        have kept := holds.1.length_le
        rwa [committedLog, length_take, Nat.min_eq_left shared.bounded] at kept }
  else none

/-- A leader that does not know of its successor appends to the log it had. -/
def fork [DecidableEq Record] (shared : SharedLog Node Record) (branch : List Record) (record : Record) :
    Option (SharedLog Node Record) :=
  if ∃ earlier ∈ shared.past, branch <+: earlier then
    some { shared with past := (branch ++ [record]) :: shared.past }
  else none

def commit (shared : SharedLog Node Record) (upto : Nat) : Option (SharedLog Node Record) :=
  if fits : shared.committed ≤ upto ∧ upto ≤ shared.log.length then
    some { shared with committed := upto, bounded := fits.2 }
  else none

variable {count upto : Nat}

theorem take_append_log (shared : SharedLog Node Record) (record : Record)
    (within : count ≤ shared.committed) :
    (shared.append record).log.take count = shared.log.take count := by
  change (shared.log ++ [record]).take count = _
  rw [take_append_of_le_length (le_trans within shared.bounded)]

variable {next shared : SharedLog Node Record} {node : Node} {branch : List Record} {record : Record}
  {allowed : List Record → Record → Prop}

theorem elect_eq_some [DecidableEq Record] (elected : shared.elect node branch = some next) :
    shared.committedLog <+: branch ∧ (∃ earlier ∈ shared.log :: shared.past, branch <+: earlier) ∧
      next.leader = some node ∧ next.log = branch ∧ next.committed = shared.committed ∧
      next.past = shared.log :: shared.past := by
  unfold elect at elected
  split at elected
  next holds =>
    cases elected
    exact ⟨holds.1, holds.2, rfl, rfl, rfl, rfl⟩
  · cases elected

theorem commit_eq_some (done : shared.commit upto = some next) :
    shared.committed ≤ upto ∧ next.committed = upto ∧ next.log = shared.log ∧
      next.leader = shared.leader ∧ next.past = shared.past := by
  unfold commit at done
  split at done
  next fits =>
    cases done
    exact ⟨fits.1, rfl, rfl, rfl, rfl⟩
  · cases done

/-- The first `count` records do not change while they stay committed. -/
theorem elect_take [DecidableEq Record] (elected : shared.elect node branch = some next)
    (within : count ≤ shared.committed) : next.log.take count = shared.log.take count := by
  obtain ⟨⟨rest, kept⟩, -, -, log, -, -⟩ := elect_eq_some elected
  have long : count ≤ shared.committedLog.length := by
    rw [committedLog, length_take, min_eq_left shared.bounded]
    exact within
  rw [log, ← kept, take_append_of_le_length long, committedLog, take_take,
    min_eq_left within]

def branches (shared : SharedLog Node Record) : List (List Record) := shared.log :: shared.past

/-- What an election or a commit does to the log: the committed part is kept
and may grow, and no new log comes up. -/
structure Follows (shared next : SharedLog Node Record) : Prop where
  committed_le : shared.committed ≤ next.committed
  take_eq : ∀ count ≤ shared.committed, next.log.take count = shared.log.take count
  branch : ∀ log ∈ next.branches, ∃ earlier ∈ shared.branches, log <+: earlier

theorem elect_follows [DecidableEq Record] (elected : shared.elect node branch = some next) :
    shared.Follows next := by
  obtain ⟨-, known, -, log, committed, past⟩ := elect_eq_some elected
  refine ⟨le_of_eq committed.symm, fun count within => elect_take elected within, ?_⟩
  intro other mem
  rw [branches, log, past] at mem
  rcases mem_cons.mp mem with rfl | mem
  · exact known
  · exact ⟨other, mem, prefix_refl other⟩

theorem commit_follows (done : shared.commit upto = some next) : shared.Follows next := by
  obtain ⟨grows, committed, log, -, past⟩ := commit_eq_some done
  refine ⟨committed ▸ grows, fun count _ => by rw [log], ?_⟩
  intro other mem
  rw [branches, log, past] at mem
  exact ⟨other, mem, prefix_refl other⟩

theorem mem_committedLog_of_take (within : count ≤ shared.committed)
    (mem : record ∈ shared.log.take count) : record ∈ shared.committedLog := by
  have part := take_prefix_take_left within (l := shared.log)
  exact part.subset mem

theorem Follows.mem_committedLog (follows : shared.Follows next)
    (mem : record ∈ shared.committedLog) : record ∈ next.committedLog := by
  rw [committedLog, ← follows.take_eq _ (le_rfl)] at mem
  exact mem_committedLog_of_take follows.committed_le mem

theorem getElem?_committedLog {index : Nat} :
    shared.committedLog[index]? = some record ↔ index < shared.committed ∧ shared.log[index]? = some record := by
  rw [committedLog, getElem?_take]
  split
  next below => simp [below]
  next above => simp [above]

theorem committedLog_initial (shared : SharedLog Node Record) :
    shared.committedLog <+: shared.log := take_prefix _ _

@[simp] theorem append_committedLog (shared : SharedLog Node Record) (record : Record) :
    (shared.append record).committedLog = shared.committedLog :=
  take_append_log shared record (le_rfl)

theorem mem_branches_append {log : List Record} (mem : log ∈ (shared.append record).branches) :
    log = shared.log ++ [record] ∨ log ∈ shared.branches := by
  rcases mem_cons.mp mem with rfl | mem
  · exact .inl rfl
  · exact .inr (mem_cons_of_mem _ mem)

variable {holds : Record → Prop} {short : List Record}

theorem Follows.forall_mem (follows : shared.Follows next)
    (old : ∀ log ∈ shared.branches, ∀ record ∈ log, holds record) :
    ∀ log ∈ next.branches, ∀ record ∈ log, holds record := by
  intro log mem record found
  obtain ⟨earlier, known, part⟩ := follows.branch log mem
  exact old earlier known record (part.subset found)

def Live (shared : SharedLog Node Record) (branch : List Record) : Prop :=
  branch ∈ shared.branches ∧ shared.committedLog <+: branch

theorem getElem?_of_initial {long : List Record} (part : short <+: long) {position : Nat}
    (found : short[position]? = some record) : long[position]? = some record := by
  obtain ⟨rest, rfl⟩ := part
  rw [getElem?_append_left (List.getElem?_eq_some_iff.mp found).1, found]

theorem live_log (shared : SharedLog Node Record) : shared.Live shared.log :=
  ⟨mem_cons_self, shared.committedLog_initial⟩

/-- What a change of the log brings. The committed part is kept and may grow. A
record of a live log is `added` or stood at its position in a live log before. -/
structure Advances (shared next : SharedLog Node Record) (added : Option Record) : Prop where
  committed : shared.committedLog <+: next.committedLog
  live : ∀ branch, next.Live branch → ∀ (position : Nat) record, branch[position]? = some record →
    added = some record ∨ ∃ earlier, shared.Live earlier ∧ earlier[position]? = some record

theorem elect_advances [DecidableEq Record] (elected : shared.elect node branch = some next) :
    shared.Advances next none := by
  obtain ⟨-, -, -, -, committed, -⟩ := elect_eq_some elected
  have same : next.committedLog = shared.committedLog := by
    rw [committedLog, committed]
    exact elect_take elected (le_rfl)
  refine ⟨same ▸ prefix_refl _, fun other live position record found => .inr ?_⟩
  obtain ⟨earlier, known, part⟩ := (elect_follows elected).branch other live.1
  exact ⟨earlier, ⟨known, (same ▸ live.2).trans part⟩, getElem?_of_initial part found⟩

theorem commit_advances (done : shared.commit upto = some next) : shared.Advances next none := by
  obtain ⟨grows, committed, log, -, past⟩ := commit_eq_some done
  have kept : shared.committedLog <+: next.committedLog := by
    rw [committedLog, committedLog, committed, log]
    exact take_prefix_take_left grows
  refine ⟨kept, fun branch live position record found => .inr ⟨branch, ⟨?_, kept.trans live.2⟩, found⟩⟩
  rw [branches, ← log, ← past]
  exact live.1

theorem append_advances (shared : SharedLog Node Record) (record : Record) :
    shared.Advances (shared.append record) (some record) := by
  refine ⟨by rw [append_committedLog], ?_⟩
  rintro branch ⟨mem, held⟩ position other found
  rw [append_committedLog] at held
  rcases mem_branches_append mem with rfl | mem
  · rcases getElem?_snoc.mp found with old | ⟨-, rfl⟩
    · exact .inr ⟨shared.log, shared.live_log, old⟩
    · exact .inl rfl
  · exact .inr ⟨branch, ⟨mem, held⟩, found⟩

theorem fork_advances [DecidableEq Record] (done : shared.fork branch record = some next) :
    shared.Advances next (if shared.committedLog <+: branch ++ [record] then some record else none) := by
  unfold fork at done
  split at done
  case isFalse => cases done
  rename_i known
  obtain ⟨origin, known, part⟩ := known
  cases done
  refine ⟨prefix_refl shared.committedLog, ?_⟩
  rintro other ⟨mem, held : shared.committedLog <+: other⟩ position found at_position
  have cases : other = branch ++ [record] ∨ other ∈ shared.branches := by
    rcases mem_cons.mp mem with rfl | mem
    · exact .inr mem_cons_self
    · exact (mem_cons.mp mem).imp_right (mem_cons_of_mem _)
  rcases cases with rfl | mem
  · rw [if_pos held]
    rcases getElem?_snoc.mp at_position with inside | ⟨-, rfl⟩
    · refine .inr ?_
      -- The committed part either ends before the fork or is all of it.
      rcases prefix_concat_iff.mp held with whole | before
      · refine ⟨shared.log, shared.live_log, getElem?_of_initial shared.committedLog_initial ?_⟩
        rw [whole, at_position]
      · exact ⟨origin, ⟨mem_cons_of_mem _ known, before.trans part⟩, getElem?_of_initial part inside⟩
    · exact .inl rfl
  · exact .inr ⟨other, ⟨mem, held⟩, at_position⟩

/-- A log every record of which was appended to a log where `allowed` held. -/
def Grown (allowed : List Record → Record → Prop) (log : List Record) : Prop :=
  ∀ (before after : List Record) (record : Record),
    log = before ++ record :: after → allowed before record

theorem Grown.nil : Grown allowed [] := by
  intro before after record same
  simp at same

theorem Grown.of_initial {long : List Record} (grown : Grown allowed long)
    (part : short <+: long) : Grown allowed short := by
  intro before after record same
  obtain ⟨rest, rfl⟩ := part
  exact grown before (after ++ rest) record (by rw [same]; simp)

theorem Grown.take {log : List Record} (grown : Grown allowed log) (count : Nat) : Grown allowed (log.take count) :=
  grown.of_initial <| take_prefix count log

theorem Grown.snoc {log : List Record} (grown : Grown allowed log) (fits : allowed log record) :
    Grown allowed (log ++ [record]) := by
  intro before after other same
  rcases split_concat same with ⟨-, rfl, rfl⟩ | ⟨middle, -, rfl⟩
  · exact fits
  · exact grown before middle other rfl

/-- Every log that can still become the shared one has grown by allowed appends. -/
def AllGrown (allowed : List Record → Record → Prop) (shared : SharedLog Node Record) : Prop :=
  ∀ log ∈ shared.branches, Grown allowed log

theorem AllGrown.empty : AllGrown allowed (SharedLog.empty : SharedLog Node Record) := by
  intro log mem
  rw [branches, SharedLog.empty, mem_singleton] at mem
  subst mem
  exact .nil

/-- A record was put behind a log that some leader has had, or nowhere. What is committed stays. -/
structure Posted (shared next : SharedLog Node Record) (onto : Option (List Record)) (record : Record) :
    Prop where
  known : ∀ branch ∈ onto, ∃ earlier ∈ shared.branches, branch <+: earlier
  committed : next.committed = shared.committed
  take_eq : ∀ count ≤ shared.committed, next.log.take count = shared.log.take count
  branch : ∀ log ∈ next.branches, log ∈ shared.branches ∨ ∃ branch ∈ onto, log = branch ++ [record]

theorem append_posted (shared : SharedLog Node Record) (record : Record) :
    shared.Posted (shared.append record) (some shared.log) record where
  known := by
    rintro _ ⟨⟩
    exact ⟨_, mem_cons_self, prefix_refl _⟩
  committed := rfl
  take_eq _ := shared.take_append_log record
  branch _ mem := (mem_branches_append mem).symm.imp_right fun same => ⟨_, rfl, same⟩

theorem fork_posted [DecidableEq Record] {branch : List Record}
    (done : shared.fork branch record = some next) : shared.Posted next (some branch) record := by
  obtain ⟨⟨origin, inside, part⟩, same⟩ := Option.ite_none_right_eq_some.mp done
  cases same
  refine ⟨?_, rfl, fun _ _ => rfl, fun log mem => ?_⟩
  · rintro _ ⟨⟩
    exact ⟨origin, mem_cons_of_mem _ inside, part⟩
  · rcases mem_cons.mp mem with rfl | mem
    · exact .inl mem_cons_self
    · exact (mem_cons.mp mem).symm.imp (mem_cons_of_mem _) fun same => ⟨_, rfl, same⟩

theorem Posted.nowhere (shared : SharedLog Node Record) (record : Record) : shared.Posted shared none record :=
  ⟨(fun _ given => nomatch given), rfl, fun _ _ => rfl, fun _ => .inl⟩

section

variable {onto : Option (List Record)} (landed : shared.Posted next onto record)
include landed

theorem Posted.committedLog : next.committedLog = shared.committedLog := by
  rw [SharedLog.committedLog, landed.committed, landed.take_eq _ le_rfl]
  rfl

/-- What holds of the records of all branches holds of a new record and stays true. -/
theorem Posted.forall_mem {holds : Record → Prop}
    (old : ∀ log ∈ shared.branches, ∀ record ∈ log, holds record) (new : holds record) :
    ∀ log ∈ next.branches, ∀ record ∈ log, holds record := by
  intro log mem other found
  rcases landed.branch log mem with mem | ⟨branch, given, rfl⟩
  · exact old log mem other found
  · obtain ⟨earlier, known, part⟩ := landed.known branch given
    rcases mem_append.mp found with found | found
    · exact old earlier known other (part.subset found)
    · exact mem_singleton.mp found ▸ new

theorem AllGrown.posted (grown : AllGrown allowed shared) (fits : ∀ branch ∈ onto, allowed branch record) :
    AllGrown allowed next := by
  intro log mem
  rcases landed.branch log mem with mem | ⟨branch, given, rfl⟩
  · exact grown log mem
  · obtain ⟨earlier, known, part⟩ := landed.known branch given
    exact ((grown earlier known).of_initial part).snoc (fits branch given)

end

theorem AllGrown.follows (grown : AllGrown allowed shared) (follows : shared.Follows next) :
    AllGrown allowed next := by
  intro log mem
  obtain ⟨earlier, known, part⟩ := follows.branch log mem
  exact (grown earlier known).of_initial part

theorem AllGrown.log (grown : AllGrown allowed shared) : Grown allowed shared.log := grown _ mem_cons_self

end SharedLog

end RocksGraph.Foundation

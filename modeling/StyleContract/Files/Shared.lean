import Mathlib.Logic.Function.Basic
import StyleContract.Files.Basic

/-!
# Files — Shared

A directory that many use at the same time. A name stands for the number of an entry, so whoever has
opened a file goes on with it when the name comes to stand for another one. Some replace the file of
one name, the target: each fills a new file under a name of its own, in pieces, waits until the file is
on the disk and then gives it the name of the target. Others open the target and read it, in pieces too.
Who is next to move is left open. Each move may fail instead, and whoever does not move any more leaves
everything as it is.
-/

namespace StyleContract

/-- How far a replacement of the target is. -/
inductive WriteStage where
  | idle
  /-- A new file under a name of its own, and what is left to write to it. -/
  | filling (name : String) (number : Nat) (rest : ByteArray)
  /-- All is on the disk. -/
  | flushed (name : String) (number : Nat)
  | done
  | failed

/-- The name and the number of a file that is not given its final name yet. -/
def WriteStage.own? : WriteStage → Option (String × Nat)
  | .filling name number _ | .flushed name number => some (name, number)
  | .idle | .done | .failed => none

/-- What is left to write to it. -/
def WriteStage.left : WriteStage → ByteArray
  | .filling _ _ rest => rest
  | .idle | .flushed _ _ | .done | .failed => .empty

/-- How far a reading of the target is. -/
inductive ReadStage where
  | idle
  /-- The file that was opened, and what was read of it. -/
  | reading (number : Nat) (sofar : ByteArray)
  /-- The content, unless there was no target. -/
  | done (content : Option ByteArray)
  | failed

/-- A directory with those who replace (`W`) and those who read (`R`) one of its files. -/
structure SharedFolder (W R : Type) where
  /-- The numbers that names stand for. -/
  names : String → Option Nat
  entries : Nat → Entry
  /-- No number from here on is in use. -/
  next : Nat
  writers : W → WriteStage
  readers : R → ReadStage
  /-- Who has replaced the target, the latest first. -/
  renames : List W

namespace SharedFolder

open Function (update)

variable {W R : Type} [DecidableEq W] [DecidableEq R]

/-- One move of somebody who replaces the target by some bytes. -/
inductive WriterStep (target : String) (bytes : W → ByteArray) (w : W) :
    SharedFolder W R → SharedFolder W R → Prop where
  | create {s : SharedFolder W R} {name : String} (hstage : s.writers w = .idle)
      (hfresh : s.names name = none) (hname : name ≠ target) :
      WriterStep target bytes w s
        { s with
          names := update s.names name (some s.next)
          entries := update s.entries s.next (.file .empty)
          next := s.next + 1
          writers := update s.writers w (.filling name s.next (bytes w)) }
  | write {s : SharedFolder W R} {name : String} {number : Nat} {content piece rest : ByteArray}
      (hstage : s.writers w = .filling name number (piece ++ rest))
      (hentry : s.entries number = .file content) :
      WriterStep target bytes w s
        { s with
          entries := update s.entries number (.file (content ++ piece))
          writers := update s.writers w (.filling name number rest) }
  | flush {s : SharedFolder W R} {name : String} {number : Nat}
      (hstage : s.writers w = .filling name number .empty) :
      WriterStep target bytes w s
        { s with writers := update s.writers w (.flushed name number) }
  | rename {s : SharedFolder W R} {name : String} {number : Nat}
      (hstage : s.writers w = .flushed name number) (hnamed : s.names name = some number)
      (hold : ∀ old children, s.names target = some old → s.entries old ≠ .folder children) :
      WriterStep target bytes w s
        { s with
          names := update (update s.names name none) target (some number)
          writers := update s.writers w .done
          renames := w :: s.renames }

/-- Somebody gives up with an error. A file of their own is removed, or cannot be removed. -/
inductive WriterFails (w : W) : SharedFolder W R → SharedFolder W R → Prop where
  | leave {s : SharedFolder W R} (hstage : s.writers w ≠ .done) :
      WriterFails w s { s with writers := update s.writers w .failed }
  | remove {s : SharedFolder W R} {name : String} {number : Nat}
      (hown : (s.writers w).own? = some (name, number)) :
      WriterFails w s
        { s with names := update s.names name none, writers := update s.writers w .failed }

/-- One move of somebody who reads the target. -/
inductive ReaderStep (target : String) (r : R) : SharedFolder W R → SharedFolder W R → Prop where
  | missing {s : SharedFolder W R} (hstage : s.readers r = .idle)
      (hnone : ((s.names target).bind fun number => (s.entries number).behind) = none) :
      ReaderStep target r s { s with readers := update s.readers r (.done none) }
  | begin {s : SharedFolder W R} {number : Nat} {content : ByteArray}
      (hstage : s.readers r = .idle) (hnamed : s.names target = some number)
      (hentry : (s.entries number).behind = some (.file content)) :
      ReaderStep target r s { s with readers := update s.readers r (.reading number .empty) }
  | read {s : SharedFolder W R} {number : Nat} {sofar piece rest : ByteArray}
      (hstage : s.readers r = .reading number sofar)
      (hentry : (s.entries number).behind = some (.file (sofar ++ piece ++ rest))) :
      ReaderStep target r s
        { s with readers := update s.readers r (.reading number (sofar ++ piece)) }
  | finish {s : SharedFolder W R} {number : Nat} {content : ByteArray}
      (hstage : s.readers r = .reading number content)
      (hentry : (s.entries number).behind = some (.file content)) :
      ReaderStep target r s { s with readers := update s.readers r (.done (some content)) }
  | fail {s : SharedFolder W R} (hstage : ∀ content, s.readers r ≠ .done content) :
      ReaderStep target r s { s with readers := update s.readers r .failed }

/-- One move of anybody. -/
inductive Step (target : String) (bytes : W → ByteArray) :
    SharedFolder W R → SharedFolder W R → Prop where
  | writes {s t : SharedFolder W R} (w : W) (h : WriterStep target bytes w s t) :
      Step target bytes s t
  | fails {s t : SharedFolder W R} (w : W) (h : WriterFails w s t) : Step target bytes s t
  | reads {s t : SharedFolder W R} (r : R) (h : ReaderStep target r s t) : Step target bytes s t

/-- What a directory can come to. -/
inductive Reach (target : String) (bytes : W → ByteArray) (start : SharedFolder W R) :
    SharedFolder W R → Prop where
  | start : Reach target bytes start start
  | step {s t : SharedFolder W R} (h : Reach target bytes start s)
      (hstep : Step target bytes s t) : Reach target bytes start t

end SharedFolder

end StyleContract

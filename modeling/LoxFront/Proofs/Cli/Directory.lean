/-
# Paths after a file was written

A file that is written changes what a path opens only if the path comes to the place of
that file.  The path opens the new bytes then, if no part of it is left, and else nothing
(`Cli.Directory.find_write`).  So it does not matter by which names or links the file was
written and is read.
-/

import LoxFront.Cli.Directory

namespace LoxFront
namespace Cli

namespace Arrival

/-- Where a path leads once a file stands at this place. -/
def withFile (place : List String) (bytes : ByteArray) : Arrival → Arrival
  | .folder other => .folder other
  | .spot other old behind => .spot other (if other = place then some bytes else old) behind

/-- The parts of a path that are left behind this place, if the path leads to it. -/
def behind? (place : List String) : Arrival → Option (List String)
  | .folder _ => none
  | .spot other _ behind => if other = place then some behind else none

end Arrival

namespace Directory

/-- The parts of a path that are left behind this place, if the path leads to it. -/
def via? (d : Directory) (place : List String) (path : String) : Option (List String) :=
  (d.arrival path).toOption.bind (Arrival.behind? place)

variable {d : Directory} {place names here parts : List String} {old : Option ByteArray}
  {path : String}

/-! ### One place -/

/-- What stands at other names is found among the entries that are kept. -/
theorem lookup_filter {entries : List (List String × Entry)} (hne : names ≠ place) :
    (entries.filter fun e => e.1 != place).lookup names = entries.lookup names := by
  induction entries with
  | nil => rfl
  | cons e entries ih =>
    by_cases he : e.1 = place
    · have hbeq : (names == e.1) = false := beq_eq_false_iff_ne.2 (he ▸ hne)
      rw [List.filter_cons_of_neg (by simpa using he), ih, List.lookup_cons, hbeq]
    · rw [List.filter_cons_of_pos (by simpa using he), List.lookup_cons, List.lookup_cons, ih]

/-- Writing leaves the entries of all other names. -/
theorem lookup_write (bytes : ByteArray) (hne : names ≠ place) :
    (d.write place bytes).entries.lookup names = d.entries.lookup names := by
  rw [write, List.lookup_cons, beq_eq_false_iff_ne.2 hne, lookup_filter hne]

/-- Writing leaves what the system has against an access. -/
@[simp] theorem permit_write (bytes : ByteArray) (access : Access) (names : List String) :
    (d.write place bytes).permit access names = d.permit access names := rfl

/-- Where a file or nothing stands, the working directory does not. -/
theorem lookup_of_standing (h : d.standing? place = old.map .file) :
    place.isPrefixOf d.place = false ∧ d.entries.lookup place = old.map .file := by
  rw [standing?] at h
  split at h
  · cases old <;> exact nomatch h
  · next hprefix => exact ⟨(Bool.not_eq_true _).mp hprefix, h⟩

/-- Where a file or nothing stood there is the file that was written. -/
theorem standing_write_self (bytes : ByteArray) (h : d.standing? place = old.map .file) :
    (d.write place bytes).standing? place = some (.file bytes) := by
  have hprefix : place.isPrefixOf (d.write place bytes).place = false := (lookup_of_standing h).1
  simp only [standing?, hprefix, Bool.false_eq_true, if_false]
  exact List.lookup_cons_self

/-- Writing leaves what stands at all other places. -/
theorem standing_write_of_ne (bytes : ByteArray) (hne : names ≠ place) :
    (d.write place bytes).standing? names = d.standing? names := by
  rw [standing?, standing?, lookup_write bytes hne]
  rfl

/-- Names lead to the place that they led to before a file was written. -/
theorem seat_write (bytes : ByteArray) (h : d.standing? place = old.map .file)
    (names : List String) : (d.write place bytes).seat names = d.seat names := by
  by_cases hne : names = place
  · subst hne
    have hold : d.seat names = names := by
      rw [seat, (lookup_of_standing h).2]
      cases old <;> rfl
    have hnew : (d.write names bytes).entries.lookup names = some (.file bytes) :=
      List.lookup_cons_self
    rw [hold, seat, hnew]
  · rw [seat, seat, lookup_write bytes hne]

/-! ### A path -/

/-- One more round of links: where the parts of a path lead once a file was written. -/
theorem arriveOn_write (bytes : ByteArray) (h : d.standing? place = old.map .file)
    {follow follow' : List String → List String → Except PathError Arrival}
    (hfollow : ∀ here parts, follow' here parts =
      (follow here parts).map (Arrival.withFile place bytes))
    (here parts : List String) :
    (d.write place bytes).arriveOn follow' here parts =
      (d.arriveOn follow here parts).map (Arrival.withFile place bytes) := by
  induction parts generalizing here with
  | nil => rfl
  | cons p more ih =>
    by_cases hstays : stays p = true
    · rw [arriveOn, arriveOn, if_pos hstays, if_pos hstays, ih]
    rw [arriveOn, arriveOn, if_neg hstays, if_neg hstays, permit_write]
    cases d.permit .enter here with
    | error e => rfl
    | ok =>
      show (if p = ".." then _ else _) = Except.map _ (if p = ".." then _ else _)
      by_cases hup : p = ".."
      · rw [if_pos hup, if_pos hup, ih]
      by_cases hlong : maxName < p.utf8ByteSize
      · rw [if_neg hup, if_neg hup, if_pos hlong, if_pos hlong]
        rfl
      rw [if_neg hup, if_neg hup, if_neg hlong, if_neg hlong]
      dsimp only
      rw [seat_write bytes h]
      by_cases hplace : d.seat (here ++ [p]) = place
      · -- the path comes to the file that was written
        rw [hplace, standing_write_self bytes h, h]
        cases old <;> simp [Except.map, Arrival.withFile]
      · rw [standing_write_of_ne bytes hplace]
        cases d.standing? (d.seat (here ++ [p])) with
        | none => simp [Except.map, Arrival.withFile, hplace]
        | some e =>
          cases e with
          | file other => simp [Except.map, Arrival.withFile, hplace]
          | folder => exact ih _
          | link target => exact hfollow _ _
          | twin other => rfl

/-- **Where a path leads stays the same when a file is written**, and at the place of that
file it finds the new bytes. -/
theorem arrive_write (bytes : ByteArray) (h : d.standing? place = old.map .file) (n : Nat)
    (here parts : List String) :
    (d.write place bytes).arrive n here parts =
      (d.arrive n here parts).map (Arrival.withFile place bytes) := by
  induction n generalizing here parts with
  | zero =>
    have hloop : ∀ here parts : List String, (.error .loop : Except PathError Arrival) =
        (Except.error PathError.loop).map (Arrival.withFile place bytes) := fun _ _ => rfl
    exact arriveOn_write bytes h hloop here parts
  | succ n ih => exact arriveOn_write bytes h ih here parts

/-- The same from the start of a path on. -/
theorem arrival_write (bytes : ByteArray) (h : d.standing? place = old.map .file)
    (path : String) :
    (d.write place bytes).arrival path =
      (d.arrival path).map (Arrival.withFile place bytes) := by
  rw [arrival, arrival]
  split
  · rfl
  · split
    · rfl
    · exact arrive_write bytes h _ _ _

/-- **A file that is written changes what a path opens only if the path leads to its place.**
The path opens the new bytes then, if they may be read and no part of it is left. -/
theorem find_write (bytes : ByteArray) (h : d.standing? place = old.map .file) (path : String) :
    (d.write place bytes).find path =
      match d.via? place path with
      | none => d.find path
      | some [] => (d.permit .read place).map fun _ => .file bytes
      | some (_ :: _) => .error .notFolder := by
  rw [find, find, arrival_write bytes h, via?]
  cases d.arrival path with
  | error e => rfl
  | ok a =>
    cases a with
    | folder other => rfl
    | spot other held behind =>
      by_cases hother : other = place
      · subst hother
        simp only [Except.map, Except.toOption, Option.bind, Arrival.withFile, Arrival.behind?,
          if_true]
        cases behind with
        | nil =>
          show (d.permit .read other >>= fun _ => _) = _
          cases d.permit .read other <;> rfl
        | cons p more => rfl
      · simp only [Except.map, Except.toOption, Option.bind, Arrival.withFile, Arrival.behind?,
          if_neg hother]
        rfl

/-! ### The place for a file -/

/-- What a path says about the place where it ends is what stands there. -/
def Truthful (d : Directory) (found : Except PathError Arrival) : Prop :=
  ∀ place old behind, found = .ok (.spot place old behind) → d.standing? place = old.map .file

/-- What is said about the end of a path is true if it is true behind each link. -/
theorem truthful_arriveOn {follow : List String → List String → Except PathError Arrival}
    (hfollow : ∀ here parts, d.Truthful (follow here parts)) (here parts : List String) :
    d.Truthful (d.arriveOn follow here parts) := by
  induction parts generalizing here with
  | nil => exact fun _ _ _ h => nomatch h
  | cons p more ih =>
    rw [arriveOn]
    split
    · exact ih here
    cases d.permit .enter here with
    | error e => exact fun _ _ _ h => nomatch h
    | ok =>
      show d.Truthful (if p = ".." then _ else _)
      split
      · exact ih _
      · split
        · exact fun _ _ _ h => nomatch h
        · dsimp only
          cases hstanding : d.standing? (d.seat (here ++ [p])) with
          | none =>
            intro place old behind h
            obtain ⟨rfl, rfl, -⟩ := Arrival.spot.inj (Except.ok.inj h)
            exact hstanding
          | some e =>
            cases e with
            | file bytes =>
              intro place old behind h
              obtain ⟨rfl, rfl, -⟩ := Arrival.spot.inj (Except.ok.inj h)
              exact hstanding
            | folder => exact ih _
            | link target => exact hfollow _ _
            | twin other => exact fun _ _ _ h => nomatch h

/-- So it is true whatever number of links may be followed. -/
theorem truthful_arrive (n : Nat) (here parts : List String) :
    d.Truthful (d.arrive n here parts) := by
  induction n generalizing here parts with
  | zero => exact truthful_arriveOn (fun _ _ _ _ _ h => by cases h) here parts
  | succ n ih => exact truthful_arriveOn ih here parts

/-- A file is created only at a place that the whole path leads to. -/
theorem exists_spot_of_created {a : Arrival} (h : d.created a = .ok place) :
    ∃ held, a = .spot place held [] := by
  cases a with
  | folder other => exact nomatch h
  | spot other held behind =>
    cases behind with
    | nil =>
      rw [created] at h
      cases hwrite : d.permit .write other with
      | error e =>
        rw [hwrite] at h
        exact nomatch h
      | ok =>
        rw [hwrite] at h
        obtain rfl : other = place := Except.ok.inj h
        exact ⟨held, rfl⟩
    | cons p more =>
      cases held with
      | some bytes => exact nomatch h
      | none =>
        unfold created at h
        dsimp only at h
        split at h <;> exact nomatch h

/-- Where a path creates a file there is a file, or nothing. -/
theorem standing_of_placeFor (h : d.placeFor path = .ok place) :
    ∃ old : Option ByteArray, d.standing? place = old.map .file := by
  have htruthful : d.Truthful (d.arrival path) := by
    rw [arrival]
    split
    · exact fun _ _ _ h => nomatch h
    · split
      · exact fun _ _ _ h => nomatch h
      · exact truthful_arrive _ _ _
  rw [placeFor] at h
  cases harrival : d.arrival path with
  | error e =>
    rw [harrival] at h
    exact nomatch h
  | ok a =>
    rw [harrival] at h
    obtain ⟨held, rfl⟩ := exists_spot_of_created (show d.created a = .ok place from h)
    exact ⟨held, htruthful place held [] harrival⟩

end Directory
end Cli
end LoxFront

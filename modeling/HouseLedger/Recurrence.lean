import HouseLedger.Calendar.Period

/-!
# Recurrence

The dates of a recurring invoice. The occurrence number `k` is the first date moved
by the period taken `k` times, and never the occurrence before it moved once, so
that the end of a month does not wear the day down. `occurrences` lists them up to
the last day that may have one.
-/

namespace HouseLedger

namespace Recurrence

/-- The occurrence number `k`, unless it lies outside the calendar. -/
def occurrence? (start : Date) (period : Period) (k : Nat) : Option Date :=
  (start.advance (period.scale k)).toOption

/-- The number of days in the calendar. A period that moves dates leaves the
calendar within as many steps: months alone do so within twelve times its years,
and days without months visit each day at most once. -/
def maxSteps : Nat := 3652059

/-- The occurrences from the number `k` on, behind those found before, which are
given last first. The list ends before the first occurrence that is after `last` or
outside the calendar. -/
def occurrencesFrom (start : Date) (period : Period) (last : Date) (k : Nat)
    (found : List Date) : Nat → List Date
  | 0 => found.reverse
  | steps + 1 =>
    match occurrence? start period k with
    | none => found.reverse
    | some d =>
      if last < d then found.reverse
      else occurrencesFrom start period last (k + 1) (d :: found) steps

/-- The dates of an invoice. One that has no end or no period occurs once. A
recurring one occurs on `start` in any case, and then on every later occurrence that
is neither after `finish` nor after `reference`. -/
def occurrences (start : Date) (finish : Option Date) (period : Option Period)
    (reference : Date) : Except Fault (List Date) :=
  match finish, period with
  | some finish, some period =>
    if period.isEmpty then .error .periodEmpty
    else .ok (occurrencesFrom start period (min finish reference) 1 [start] maxSteps)
  | _, _ => .ok [start]

end Recurrence

end HouseLedger

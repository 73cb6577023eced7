import Mathlib.Data.List.Forall2
import Mathlib.Order.Bounds.Basic
import Gaudere.Library.SlidingWindow

/-!
# First come, first served

A limit on recorded times says which lists of times are within it. A server that answers requests
as they come, and admits each that the limit allows after those it admitted, decides without
looking ahead. `Limit.Served` is that server, and `Served.isGreatest` says that it loses nothing:
where requests come in the order of their times, no other choice among the same requests that is
within the limit admits more.

All that a limit needs for this is `Limit.early`: times that are nowhere later leave at least as
much room for one more. The server stays ahead of any other choice: its k-th time is never later
than the k-th time chosen. `windowLimit` is the limit on the number of the times, on their
distance and on their number in every window.
-/

set_option autoImplicit false
set_option relaxedAutoImplicit false

namespace Gaudere.Library

variable {Time : Type*}

/-- Which lists of times, in the order of their admission, are within a limit. -/
structure Limit (Time : Type*) [LE Time] where
  Within : List Time → Prop
  nil : Within []
  init : ∀ {times : List Time} {t : Time}, Within (times ++ [t]) → Within times
  /-- Times that are nowhere later leave at least as much room. -/
  early : ∀ {earlier later : List Time} {t : Time}, List.Forall₂ (· ≤ ·) earlier later →
    Within earlier → Within (later ++ [t]) → Within (earlier ++ [t])

namespace Limit

section Preorder

variable [Preorder Time] (limit : Limit Time)

/-- What a server has admitted after some requests: each that was within the limit after those
admitted before. -/
inductive Served : List Time → List Time → Prop
  | nil : Served [] []
  | admitted {requests admitted : List Time} {t : Time} (h : Served requests admitted)
      (hwithin : limit.Within (admitted ++ [t])) : Served (requests ++ [t]) (admitted ++ [t])
  | refused {requests admitted : List Time} {t : Time} (h : Served requests admitted)
      (hwithin : ¬ limit.Within (admitted ++ [t])) : Served (requests ++ [t]) admitted

variable {limit}

theorem Served.sublist {requests admitted : List Time} (h : limit.Served requests admitted) :
    admitted.Sublist requests := by
  induction h with
  | nil => exact List.Sublist.refl _
  | admitted _ _ ih => exact ih.append (List.Sublist.refl _)
  | refused _ _ ih => exact ih.trans (List.sublist_append_left _ _)

theorem Served.within {requests admitted : List Time} (h : limit.Served requests admitted) :
    limit.Within admitted := by
  induction h with
  | nil => exact limit.nil
  | admitted _ hwithin _ => exact hwithin
  | refused _ _ ih => exact ih

/-- The server has admitted at least as many times, each no later than the one chosen. -/
def Ahead (admitted chosen : List Time) : Prop :=
  ∃ first rest, admitted = first ++ rest ∧ List.Forall₂ (· ≤ ·) first chosen

theorem Ahead.concat {admitted chosen : List Time} (h : Ahead admitted chosen) (t : Time) :
    Ahead (admitted ++ [t]) chosen := by
  obtain ⟨first, rest, rfl, hfirst⟩ := h
  exact ⟨first, rest ++ [t], List.append_assoc first rest [t], hfirst⟩

theorem Ahead.length_le {admitted chosen : List Time} (h : Ahead admitted chosen) :
    chosen.length ≤ admitted.length := by
  obtain ⟨first, rest, rfl, hfirst⟩ := h
  rw [← hfirst.length_eq, List.length_append]
  exact Nat.le_add_right _ _

/-- One more choice finds the server with a further time, which was admitted before, or with as
many times as were chosen. -/
theorem Ahead.choose {admitted chosen : List Time} (h : Ahead admitted chosen) {t : Time}
    (hbefore : ∀ a ∈ admitted, a ≤ t) :
    Ahead admitted (chosen ++ [t]) ∨ List.Forall₂ (· ≤ ·) admitted chosen := by
  obtain ⟨first, rest, rfl, hfirst⟩ := h
  cases rest with
  | nil =>
    rw [List.append_nil]
    exact Or.inr hfirst
  | cons next rest =>
    have hnext : next ≤ t := hbefore next (List.mem_append_right _ List.mem_cons_self)
    exact Or.inl ⟨first ++ [next], rest, by rw [List.append_assoc, List.singleton_append],
      List.rel_append hfirst (List.Forall₂.cons hnext List.Forall₂.nil)⟩

/-- Whatever is chosen among the requests, the server stays ahead of it. -/
theorem Served.ahead {requests admitted : List Time} (h : limit.Served requests admitted)
    (hordered : requests.Pairwise (· ≤ ·)) {chosen : List Time}
    (hchosen : chosen.Sublist requests) (hwithin : limit.Within chosen) :
    Ahead admitted chosen := by
  induction h generalizing chosen with
  | nil =>
    rw [List.sublist_nil.mp hchosen]
    exact ⟨[], [], rfl, List.Forall₂.nil⟩
  | @admitted requests admitted t hserved hnew ih =>
    obtain ⟨hrequests, _, hlast⟩ := List.pairwise_append.mp hordered
    have hbefore : ∀ a ∈ admitted, a ≤ t := fun a ha ↦
      hlast a (hserved.sublist.subset ha) t List.mem_cons_self
    obtain ⟨earlier, last, rfl, hearlier, hsingle⟩ := List.sublist_append_iff.mp hchosen
    rcases List.sublist_singleton.mp hsingle with rfl | rfl
    · rw [List.append_nil] at hwithin ⊢
      exact (ih hrequests hearlier hwithin).concat t
    · have hahead := ih hrequests hearlier (limit.init hwithin)
      rcases hahead.choose hbefore with hmore | hequal
      · exact hmore.concat t
      · exact ⟨admitted ++ [t], [], (List.append_nil _).symm,
          List.rel_append hequal (List.Forall₂.cons le_rfl List.Forall₂.nil)⟩
  | @refused requests admitted t hserved hrefused ih =>
    obtain ⟨hrequests, _, hlast⟩ := List.pairwise_append.mp hordered
    have hbefore : ∀ a ∈ admitted, a ≤ t := fun a ha ↦
      hlast a (hserved.sublist.subset ha) t List.mem_cons_self
    obtain ⟨earlier, last, rfl, hearlier, hsingle⟩ := List.sublist_append_iff.mp hchosen
    rcases List.sublist_singleton.mp hsingle with rfl | rfl
    · rw [List.append_nil] at hwithin ⊢
      exact ih hrequests hearlier hwithin
    · rcases (ih hrequests hearlier (limit.init hwithin)).choose hbefore with hmore | hequal
      · exact hmore
      · exact absurd (limit.early hequal hserved.within hwithin) hrefused

/-- No choice among the requests that is within the limit is larger than what was admitted. -/
theorem Served.isGreatest {requests admitted : List Time} (h : limit.Served requests admitted)
    (hordered : requests.Pairwise (· ≤ ·)) :
    IsGreatest {n | ∃ chosen : List Time, chosen.Sublist requests ∧ limit.Within chosen ∧
      chosen.length = n} admitted.length := by
  refine ⟨⟨admitted, h.sublist, h.within, rfl⟩, ?_⟩
  rintro _ ⟨chosen, hchosen, hwithin, rfl⟩
  exact (h.ahead hordered hchosen hwithin).length_le

theorem exists_later {earlier later : List Time} (h : List.Forall₂ (· ≤ ·) earlier later)
    {a : Time} (ha : a ∈ earlier) : ∃ b ∈ later, a ≤ b := by
  induction h with
  | nil => cases ha
  | @cons first second earlier later hle _ ih =>
    rcases List.mem_cons.mp ha with rfl | ha
    · exact ⟨second, List.mem_cons_self, hle⟩
    · obtain ⟨b, hb, hab⟩ := ih ha
      exact ⟨b, List.mem_cons_of_mem second hb, hab⟩

theorem countP_le_of_later {p : Time → Bool} (hp : ∀ a b, a ≤ b → p a = true → p b = true)
    {earlier later : List Time} (h : List.Forall₂ (· ≤ ·) earlier later) :
    earlier.countP p ≤ later.countP p := by
  induction h with
  | nil => exact le_rfl
  | @cons first second earlier later hle _ ih =>
    rw [List.countP_cons, List.countP_cons]
    refine Nat.add_le_add ih ?_
    by_cases hfirst : p first = true
    · rw [if_pos hfirst, if_pos (hp first second hle hfirst)]
    · rw [if_neg hfirst]
      exact Nat.zero_le _

end Preorder

end Limit

/-! ### Limits with a window -/

section Window

variable [AddCommGroup Time] [LinearOrder Time] [IsOrderedAddMonoid Time]

/-- The limits of a window, a distance and a total. -/
structure WithinLimits (total inWindow : ℕ) (window interval : Time) (times : List Time) :
    Prop where
  total : times.length ≤ total
  spaced : times.Pairwise fun a b ↦ a + interval ≤ b
  windowed : WindowBounded window inWindow times

/-- What one more time is checked against. -/
structure AdmitsOne (total inWindow : ℕ) (window interval : Time) (times : List Time) (t : Time) :
    Prop where
  total : times.length < total
  spaced : ∀ a ∈ times, a + interval ≤ t
  windowed : times.countP (fun a ↦ decide (t - window < a)) < inWindow

variable {total inWindow : ℕ} {window interval : Time}

omit [IsOrderedAddMonoid Time] in
theorem withinLimits_nil : WithinLimits total inWindow window interval [] :=
  ⟨Nat.zero_le _, List.Pairwise.nil, WindowBounded.nil _ _⟩

/-- Looking back from each new time keeps exactly the limits. -/
theorem withinLimits_concat_iff (hwindow : 0 < window) (hinterval : 0 ≤ interval)
    {times : List Time} {t : Time} :
    WithinLimits total inWindow window interval (times ++ [t]) ↔
      WithinLimits total inWindow window interval times ∧
        AdmitsOne total inWindow window interval times t := by
  constructor
  · rintro ⟨htotal, hspaced, hwindowed⟩
    obtain ⟨hbefore, _, hlast⟩ := List.pairwise_append.mp hspaced
    have hnew : ∀ a ∈ times, a + interval ≤ t := fun a ha ↦ hlast a ha t List.mem_cons_self
    rw [List.length_append, List.length_singleton] at htotal
    refine ⟨⟨(Nat.le_succ _).trans htotal, hbefore,
      hwindowed.subperm (List.sublist_append_left _ _).subperm⟩, htotal, hnew, ?_⟩
    -- The window that ends at the new time holds it, and all the times after its start.
    have hcount := hwindowed (t - window)
    have hsingle : [t].countP (fun a ↦ decide (t - window < a ∧ a ≤ t - window + window)) = 1 := by
      rw [List.countP_singleton, if_pos]
      exact decide_eq_true ⟨sub_lt_self t hwindow, (sub_add_cancel t window).ge⟩
    rw [List.countP_append, hsingle] at hcount
    refine lt_of_eq_of_lt (List.countP_congr fun a ha ↦ ?_) (Nat.lt_of_succ_le hcount)
    have hle : a ≤ t := (le_add_of_nonneg_right hinterval).trans (hnew a ha)
    simp only [decide_eq_true_eq, sub_add_cancel, hle, and_true]
  · rintro ⟨hwithin, htotal, hspaced, hwindowed⟩
    refine ⟨?_, ?_, hwithin.windowed.concat hwindowed⟩
    · rw [List.length_append, List.length_singleton]
      exact htotal
    · refine List.pairwise_append.mpr ⟨hwithin.spaced, List.pairwise_singleton _ _, ?_⟩
      intro a ha b hb
      rw [List.mem_singleton.mp hb]
      exact hspaced a ha

/-- Times that are nowhere later admit whatever the later ones admit. -/
theorem AdmitsOne.early {earlier later : List Time} {t : Time}
    (hearly : List.Forall₂ (· ≤ ·) earlier later)
    (h : AdmitsOne total inWindow window interval later t) :
    AdmitsOne total inWindow window interval earlier t := by
  refine ⟨hearly.length_eq ▸ h.total, fun a ha ↦ ?_, lt_of_le_of_lt ?_ h.windowed⟩
  · obtain ⟨b, hb, hle⟩ := Limit.exists_later hearly ha
    exact (add_le_add_left hle interval).trans (h.spaced b hb)
  · refine Limit.countP_le_of_later (fun a b hle ha ↦ ?_) hearly
    rw [decide_eq_true_eq] at ha ⊢
    exact ha.trans_le hle

/-- Looser limits admit what stricter ones admit. -/
theorem AdmitsOne.loosen {total' inWindow' : ℕ} {window' interval' : Time} {times : List Time}
    {t : Time} (h : AdmitsOne total inWindow window interval times t) (htotal : total ≤ total')
    (hinWindow : inWindow ≤ inWindow') (hwindow : window' ≤ window)
    (hinterval : interval' ≤ interval) :
    AdmitsOne total' inWindow' window' interval' times t := by
  refine ⟨h.total.trans_le htotal, fun a ha ↦ ?_, lt_of_le_of_lt ?_ (h.windowed.trans_le hinWindow)⟩
  · exact (add_le_add_right hinterval a).trans (h.spaced a ha)
  · refine List.countP_mono_left fun a _ ha ↦ ?_
    rw [decide_eq_true_eq] at ha ⊢
    exact (sub_le_sub_left hwindow t).trans_lt ha

/-- The limit of a window, a distance and a total. -/
def windowLimit (total inWindow : ℕ) {window interval : Time} (hwindow : 0 < window)
    (hinterval : 0 ≤ interval) : Limit Time where
  Within := WithinLimits total inWindow window interval
  nil := withinLimits_nil
  init h := ((withinLimits_concat_iff hwindow hinterval).mp h).1
  early hearly hwithin h := (withinLimits_concat_iff hwindow hinterval).mpr
    ⟨hwithin, ((withinLimits_concat_iff hwindow hinterval).mp h).2.early hearly⟩

end Window

end Gaudere.Library

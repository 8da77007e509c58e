import Yafu.Api.Logs

/-!
# Which end of a log is cut off

Reference: `fetchPodLogs` in `internal/api/logs.go`, `LogsResponse` in `internal/api/types/types.go`
and `LogsTab` in `web/src/pages/AppDetail.tsx`.

The kubelet sends the last lines of a log, the oldest of them first. A response that was cut off is
shown as the last 256 KiB, but what is kept are the first: the newest lines are the ones that are lost.
-/

namespace Yafu.Api

/-! ## The newest part -/

/-- The result is the log, or its last `maxLogBytes` bytes where there are more; so the newest part of
the log is in it. -/
structure KeepsTail (log : GoString) (result : Except GoString (GoString × Bool)) : Prop where
  whole : log.length ≤ maxLogBytes → result = .ok (log, false)
  tail : maxLogBytes < log.length → result = .ok (log.drop (log.length - maxLogBytes), true)
  newest : ∀ part, part <:+ log → part.length ≤ maxLogBytes →
    ∃ kept cut, result = .ok (kept, cut) ∧ part <:+ kept

section Fetch

variable {kube : Kube} {ns name container log : GoString} {lines : ℤ}

theorem fetchPodLogs_whole (h : kube.getLogs ns name container lines = .ok { data := log })
    (hshort : log.length ≤ maxLogBytes) :
    fetchPodLogs kube ns name container lines = .ok (log, false) := by
  simp only [fetchPodLogs, h, if_neg (Nat.not_lt.mpr hshort)]

theorem fetchPodLogs_cut (h : kube.getLogs ns name container lines = .ok { data := log })
    (hlong : maxLogBytes < log.length) :
    fetchPodLogs kube ns name container lines = .ok (log.take maxLogBytes, true) := by
  simp only [fetchPodLogs, h, if_pos hlong]

/-- What a log of more bytes loses is its newest part. -/
theorem exists_lost (h : kube.getLogs ns name container lines = .ok { data := log })
    (hlong : maxLogBytes < log.length) :
    ∃ kept lost, fetchPodLogs kube ns name container lines = .ok (kept, true) ∧ lost ≠ [] ∧
      log = kept ++ lost := by
  refine ⟨_, log.drop maxLogBytes, fetchPodLogs_cut h hlong, ?_, (log.take_append_drop _).symm⟩
  rw [ne_eq, List.drop_eq_nil_iff, not_le]
  exact hlong

/-- An end of the log that fits into a response is in its last `maxLogBytes` bytes. -/
theorem suffix_tail {part : GoString} (h : part <:+ log) (hfits : part.length ≤ maxLogBytes) :
    part <:+ log.drop (log.length - maxLogBytes) := by
  refine List.suffix_of_suffix_length_le h (List.drop_suffix _ _) ?_
  have hlength := h.length_le
  rw [List.length_drop]
  omega

theorem keepsTail_whole (hshort : log.length ≤ maxLogBytes) : KeepsTail log (.ok (log, false)) where
  whole _ := rfl
  tail hlong := absurd hlong (not_lt.mpr hshort)
  newest _ hpart _ := ⟨log, false, rfl, hpart⟩

theorem keepsTail_tail (hlong : maxLogBytes < log.length) :
    KeepsTail log (.ok (log.drop (log.length - maxLogBytes), true)) where
  whole hshort := absurd hlong (not_lt.mpr hshort)
  tail _ := rfl
  newest _ hpart hfits := ⟨_, true, rfl, suffix_tail hpart hfits⟩

/-- The tail is kept exactly if nothing is cut off, or the first and the last `maxLogBytes` bytes are
the same. -/
theorem keepsTail_iff (h : kube.getLogs ns name container lines = .ok { data := log }) :
    KeepsTail log (fetchPodLogs kube ns name container lines) ↔
      log.length ≤ maxLogBytes ∨
        log.take maxLogBytes = log.drop (log.length - maxLogBytes) := by
  obtain hshort | hlong := le_or_gt log.length maxLogBytes
  · rw [fetchPodLogs_whole h hshort]
    exact iff_of_true (keepsTail_whole hshort) (.inl hshort)
  · have hnot : ¬log.length ≤ maxLogBytes := not_le.mpr hlong
    rw [fetchPodLogs_cut h hlong, or_iff_right hnot]
    constructor
    · intro hkeeps
      exact (Prod.mk.inj (Except.ok.inj (hkeeps.tail hlong))).1
    · intro hsame
      rw [hsame]
      exact keepsTail_tail hlong

end Fetch

/-! ### A container that crashed -/

/-- The log of a container with a last line behind `maxLogBytes` bytes. -/
def crashLog : GoString := List.replicate maxLogBytes 'a'.toUInt8 ++ ("panic\n" : GoString)

/-- A cluster with this log. -/
def crashed (log : GoString) : Kube where
  getSecret _ _ := .notFound
  listPods _ := .ok []
  getLogs _ _ _ _ := .ok { data := log }
  followLogs _ _ _ _ := .error "not found"

/-- The log of a container that prints a dot for every step, twice as long as a response. -/
def dots : GoString := List.replicate (2 * maxLogBytes) '.'.toUInt8

/-- Of such a log the first bytes are as good as the last. -/
theorem keepsTail_iff_dots : maxLogBytes < dots.length ∧
    KeepsTail dots (fetchPodLogs (crashed dots) "shop" "web-0" "app" 200) := by
  have hlength : dots.length = 2 * maxLogBytes := List.length_replicate
  have hread : (crashed dots).getLogs "shop" "web-0" "app" 200 = .ok { data := dots } := rfl
  refine ⟨?_, (keepsTail_iff hread).mpr (.inr ?_)⟩
  · rw [hlength]
    decide
  · have hcount : min maxLogBytes (2 * maxLogBytes) =
        2 * maxLogBytes - (2 * maxLogBytes - maxLogBytes) := by decide
    rw [hlength, dots, List.take_replicate, List.drop_replicate, hcount]

/-- The last line is not in the response. -/
theorem not_keepsTail_crashLog :
    (crashed crashLog).getLogs "shop" "web-0" "app" 200 = .ok { data := crashLog } ∧
      ¬KeepsTail crashLog (fetchPodLogs (crashed crashLog) "shop" "web-0" "app" 200) := by
  refine ⟨rfl, fun hkeeps => ?_⟩
  have hread : (crashed crashLog).getLogs "shop" "web-0" "app" 200 = .ok { data := crashLog } := rfl
  have hlong : maxLogBytes < crashLog.length := by
    rw [crashLog, List.length_append, List.length_replicate]
    exact Nat.lt_add_of_pos_right (by decide)
  have hfits : ("panic\n" : GoString).length ≤ maxLogBytes := by decide
  obtain ⟨kept, cut, hkept, hpanic⟩ := hkeeps.newest _ (List.suffix_append _ _) hfits
  rw [fetchPodLogs_cut hread hlong, crashLog, List.take_left' (List.length_replicate)] at hkept
  cases hkept
  have hmem : 'p'.toUInt8 ∈ List.replicate maxLogBytes 'a'.toUInt8 := hpanic.subset (by decide)
  exact absurd (List.eq_of_mem_replicate hmem) (by decide)

end Yafu.Api

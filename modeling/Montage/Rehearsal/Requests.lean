import Montage.Scenario.Request

/-!
# Requests to rehearse with
-/

namespace Montage.Rehearsal

/-- A clip with a banner for one account. -/
def bannerRequest (jobId : String) : Request where
  jobId := jobId
  accounts := ["brand.main"]
  caption := some "Out now"
  scenario := .bannerAppend "https://cdn.example.com/clips/source.mp4"
    "https://cdn.example.com/clips/banner.mp4"

/-- The beginning of a long clip for one account. -/
def shortifyRequest (jobId : String) (maxDuration : Scalar) : Request where
  jobId := jobId
  accounts := ["brand.main"]
  caption := none
  scenario := .shortify "https://cdn.example.com/clips/long.mp4" .zero maxDuration 1

end Montage.Rehearsal

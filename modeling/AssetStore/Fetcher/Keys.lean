import AssetStore.Fetcher.Idempotence
import AssetStore.Registry.Requests

/-! The cache key of a passthrough URL. The rule joins the decoded path segments and the query into
an alias tail, the guard splits the alias that the tail ends, and the registry puts a key together
again. Two URLs share a key when the tails meet on the way. -/

namespace AssetStore

open Lib

/-! ### Keys -/

section Keys

variable {b r key : Text}

end Keys

/-! ### Paths that meet -/

section Joined

variable {p n p' n' q : Text}

end Joined

/-! ### Passthrough URLs -/

/-- The alias tail of a passthrough URL: its segments and its query. -/
def NormalizedUrl.tail (url : NormalizedUrl) : Text :=
  let tail := ['/'].intercalate url.pathSegments
  if url.query = [] then tail else tail ++ '?' :: url.query

section Passthrough

variable {host mirrorId key t : Text} {u v : NormalizedUrl}

end Passthrough

end AssetStore

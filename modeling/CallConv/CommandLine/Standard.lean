import CallConv.Bazel.BuildRule
import CallConv.CommandLine.Run
import CallConv.Glob.Find
import CallConv.Toml.Decode

/-!
# The environment that the program runs in

Configurations are TOML documents, BUILD files are Starlark, and files are found by patterns with
two stars. Here the readers for all of these are put together for a run. What is known about runs
holds in any environment, so other readers may take their place.
-/

namespace CallConv

/-- The environment on a system. -/
def Environment.standard (host : Host) : Environment where
  host := host
  config := Toml.format
  build := BuildExpr.format
  find? := Glob.findBelow?
  accepts := Glob.selects

end CallConv

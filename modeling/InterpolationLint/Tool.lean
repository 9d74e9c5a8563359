/-!
# The tool itself

Its name, version and home page, as they stand in reports.
-/

namespace InterpolationLint

def toolName : String := "interpcheck"

def toolVersion : String := "0.1.0"

def toolHome : String := "https://github.com/zen-systems/interpcheck"

end InterpolationLint

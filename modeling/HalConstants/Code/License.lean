import HalConstants.Code.Fragment

/-!
# License headers

Every generated document opens with the Apache license: as a block comment where the language has
slash comments, as line comments where it has hash comments.
-/

namespace HalConstants

structure License where
  year : Int
  holder : String := "The Android Open Source Project"

namespace License

/-- Years are 32-bit integers. -/
def isYear (i : Int) : Bool := Int32.minValue.toInt ≤ i && i ≤ Int32.maxValue.toInt

def terms : List String := [
  "",
  "Licensed under the Apache License, Version 2.0 (the \"License\");",
  "you may not use this file except in compliance with the License.",
  "You may obtain a copy of the License at",
  "",
  "     http://www.apache.org/licenses/LICENSE-2.0",
  "",
  "Unless required by applicable law or agreed to in writing, software",
  "distributed under the License is distributed on an \"AS IS\" BASIS,",
  "WITHOUT WARRANTIES OR CONDITIONS OF ANY KIND, either express or implied.",
  "See the License for the specific language governing permissions and",
  "limitations under the License."]

def lines (l : License) : List String :=
  s!"Copyright (C) {l.year} {l.holder}" :: terms

def fragments (l : License) : CommentStyle → List Fragment
  | .slash =>
    .line "/*" ::
      l.lines.map (fun text => .line (if text.isEmpty then " *" else " * " ++ text)) ++
      [.line " */"]
  | .hash => l.lines.map .comment

end License

end HalConstants

import Odiseo.Materials.Webhook

/-!
# What the merge reads and writes

The parts of `handleMergePdf` that touch the database: the courses that take part in a
merge, the PDFs that each of them brings, and the addresses that are written to the
request at the end.
-/

namespace Odiseo.Materials

open Database

/-- `getCoursesForMerge`. -/
def getCoursesForMerge (r : RequestId) : Tx (List MaterialRequestCourse) :=
  Program.select fun v => v.coursesOf r

/-- The address of one of the three PDFs of a course. -/
def MaterialRequestCourse.url (c : MaterialRequestCourse) : Variant → Option Url
  | .student => c.downloadUrl
  | .keys => c.keyDownloadUrl
  | .solutions => c.solutionDownloadUrl

/-- `completedCourses`: the courses that take part in a merge. -/
def completedCourses (courseRequests : List MaterialRequestCourse) :
    List MaterialRequestCourse :=
  courseRequests.filter fun c =>
    c.status == .completed && (Url.orUndefined (c.url .student)).isSome

/-- `sources`: the PDFs of one kind that the courses have. -/
def mergeSources (courses : List MaterialRequestCourse) (variant : Variant) : List Url :=
  courses.filterMap fun c => Url.orUndefined (c.url variant)

/-- The file name of a combined PDF. -/
def mergedName : Variant → String
  | .student => "Completo.pdf"
  | .keys => "Completo_keys.pdf"
  | .solutions => "Completo_solutions.pdf"

/-- The address of a combined PDF of a request. -/
def mergedUrl (tenantId : Uuid) (r : RequestId) (variant : Variant) : Url :=
  .text s!"materials/{tenantId}/merged/{r}/{mergedName variant}"

/-- The columns that `updateMergedDownloadUrl` sets, and the version that it counts up. A
column whose new value is `undefined` keeps the old one. -/
def MaterialRequest.withMerged (q : MaterialRequest) (url : Url)
    (keyUrl solutionUrl : Option Url) : MaterialRequest :=
  { q with
    mergedDownloadUrl := some url
    mergedKeyDownloadUrl := (Url.orUndefined keyUrl).or q.mergedKeyDownloadUrl
    mergedSolutionDownloadUrl := (Url.orUndefined solutionUrl).or q.mergedSolutionDownloadUrl
    version := q.version + 1 }

/-- `updateMergedDownloadUrl`. -/
def updateMergedDownloadUrl (r : RequestId) (url : Url) (keyUrl solutionUrl : Option Url) :
    Tx Unit :=
  Program.write (fun _ => [.request r])
    (fun _ => updateRequest r fun q => q.withMerged url keyUrl solutionUrl) fun _ => ()

end Odiseo.Materials

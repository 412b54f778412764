/-!
# Standard labels and annotations

The keys that generated records carry in their metadata, and the name and version of
the generator that some of them tell.
-/

namespace Rollout

namespace Generator

/-- The name under which generated records are managed. -/
def name : String := "deckhand"

/-- The version of the generator. -/
def version : String := "0.1.0"

end Generator

namespace Label

def name : String := "app.kubernetes.io/name"

def component : String := "app.kubernetes.io/component"

def managedBy : String := "app.kubernetes.io/managed-by"

def partOf : String := "app.kubernetes.io/part-of"

/-- The short label by which a Service finds its pods. -/
def app : String := "app"

/-- The annotation that names the generator. -/
def generatedBy : String := "deckhand.io/generated-by"

/-- The annotation that tells the version of the generator. -/
def generatorVersion : String := "deckhand.io/version"

/-- The annotation of pods with a digest of the configuration they mount. -/
def configChecksum : String := "checksum/config"

def scrape : String := "prometheus.io/scrape"

def scrapePort : String := "prometheus.io/port"

def scrapePath : String := "prometheus.io/path"

end Label

end Rollout

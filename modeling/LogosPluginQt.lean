import LogosPluginQt.ConsumerOverlap
import LogosPluginQt.ClientCache
import LogosPluginQt.RegistrationFailure
import LogosPluginQt.GlueCallers
import LogosPluginQt.GlueDeferred
import LogosPluginQt.GlueMethods
import LogosPluginQt.GlueSourceClosed
import LogosPluginQt.InboundTokens
import LogosPluginQt.QtRefusals
import LogosPluginQt.QtContainers
import LogosPluginQt.UnloadSafety
import LogosPluginQt.ProviderTeardown
import LogosPluginQt.WarmUpSafety
import LogosPluginQt.GeneratorOutput
import LogosPluginQt.InitSafety
import LogosPluginQt.GenerationProvenance
import LogosPluginQt.HeaderBuildSafety
import LogosPluginQt.GeneratorMain
import LogosPluginQt.GlueDraining
import LogosPluginQt.GlueAnswerSafety
import LogosPluginQt.GlueEventSafety
import LogosPluginQt.PluginRelocation
import LogosPluginQt.PluginHeaders
